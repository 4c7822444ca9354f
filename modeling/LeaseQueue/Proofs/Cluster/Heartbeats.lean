import LeaseQueue.Proofs.Cluster.Bases
import LeaseQueue.Proofs.Cluster.Landings
import LeaseQueue.Proofs.Cluster.Rosters
import LeaseQueue.Proofs.Engine.Renewals

/-!
# Heartbeats

A heartbeat looks whether the document names its broker, and if so has the engine write a renewal.
Another broker may take over in between, and the engine may have to fold its batch anew.  The
renewal counts only where the document still names the broker, so that it undoes no takeover, and
the heartbeat reports what the write that took effect has found:

  `HonestBeats brokers ((init engines brokers memory ids clock).trail acts)`
-/

namespace LeaseQueue.Cluster

open Engine (Ledger Pending Ticket Write)

/-- A heartbeat takes note of whether the document that it has looked at names its broker. -/
structure Moment.Finds (m : Moment) (i : ProcId) (b : BrokerId) (own named : Bool) : Prop where
  act : m.act = .proceed i
  found : ∃ answer, m.before.procs[i]? = some (.awaiting (.beat b own) (.landed answer)) ∧
    (m.before.seats b).options.election.leads answer = .ok named

/-- A heartbeat comes to its result: at once, or with the verdict on its renewal. -/
inductive Moment.Reports (m : Moment) (i : ProcId) (b : BrokerId) (result : Except Broker.Error Bool) :
    Prop where
  | atOnce {own : Bool} {answer : Store.Answer .read} (act : m.act = .proceed i)
    (hq : m.before.procs[i]? = some (.awaiting (.beat b own) (.landed answer)))
    (hdone : Broker.heartbeat (m.before.seats b).options m.before.clock answer = .done result)
  | renewed {own : Bool} {ticket : Ticket} {verdict : Engine.Verdict} (act : m.act = .proceed i)
    (hq : m.before.procs[i]? = some (.renewing b own ticket))
    (hverdict : m.before.verdict? ticket = some verdict) (hresult : Broker.renewed verdict = result)

/-- Whether there is a document in the store that names the broker. -/
def Moment.Shows (m : Moment) (o : Broker.Options) (named : Bool) : Prop :=
  match m.before.memory.entry? o.engine.stateKey with
  | none => named = false
  | some entry => ∃ document, Document.decode entry.data = .ok document ∧
    (named = true ↔ document.broker = some o.address)

/-- A write of the broker's engine takes effect that has the renewal.  It replaces `base`, and comes
to the renewal when the document is `found`. -/
structure Moment.Renews (m : Moment) (b : BrokerId) (o : Broker.Options) (ticket : Ticket)
    (reading : Millis) (w : Write) (base found : Document) : Prop where
  writes : m.Writes (.ofBroker b) w
  replaces : ∃ entry, m.before.memory.entry? o.engine.stateKey = some entry ∧ Holds entry.data base
  renews : w.Renews o.engine.heartbeatTimeout ticket o.address reading base found

/-- What heartbeats do, and what they report. -/
structure HonestBeats (brokers : BrokerId → Broker.Options) (moments : List Moment) : Prop where
  once : ∀ k ∈ moments, ∀ k' ∈ moments, ∀ i b own named b' own' named',
    k.Finds i b own named → k'.Finds i b' own' named' → k = k'
  /-- What a heartbeat finds was so when it looked. -/
  looked : ∀ k ∈ moments, ∀ i b own named, k.Finds i b own named →
    ∃ l, [l, k].Sublist moments ∧ l.act = .land i ∧ l.Shows (brokers b) named
  /-- If the broker is not named, the heartbeat says so at once, and submits nothing. -/
  refrains : ∀ k ∈ moments, ∀ i b own, k.Finds i b own false →
    k.Reports i b (.ok false) ∧ k.after.tickets = k.before.tickets ∧
      k.after.procs[i]? = some .ended
  /-- If the broker is named, the heartbeat submits a renewal with the present reading of the clock,
  and waits for it. -/
  submits : ∀ k ∈ moments, ∀ i b own, k.Finds i b own true →
    let request : Pending := ⟨k.before.tickets, .renewBroker (brokers b).address k.before.clock⟩
    k.after.procs[i]? = some (.renewing b own request.ticket) ∧
      (k.after.log = .accepted (.ofBroker b) request :: k.before.log ∨
        k.after.log = .rejected (.ofBroker b) request :: k.before.log)
  /-- However often the batch is folded anew, the renewal leaves the broker that it finds in charge,
  and sets the heartbeat of no other. -/
  folds : ∀ k ∈ moments, ∀ i b own, k.Finds i b own true →
    ∀ m ∈ moments, ∀ e w, m.Carries e w → w.folds k.before.tickets →
      [k, m].Sublist moments ∧ e = .ofBroker b ∧
      ∃ base found, w.Renews (brokers b).engine.heartbeatTimeout k.before.tickets
        (brokers b).address k.before.clock base found
  /-- At most one of these writes takes effect, over the document that is there.  Whoever is in
  charge there remains so, unless somebody registers in the same batch. -/
  lands : ∀ k ∈ moments, ∀ i b own, k.Finds i b own true →
    ∀ r ∈ moments, ∀ e w, r.Writes e w → w.folds k.before.tickets →
      (∃ base found, r.Renews b (brokers b) k.before.tickets k.before.clock w base found ∧
        ((∀ p ∈ w.batch, ¬ p.mutation.IsRegistration) → w.document.broker = base.broker)) ∧
      ∀ r' ∈ moments, ∀ e' w', r'.Writes e' w' → w'.folds k.before.tickets → r' = r
  /-- A heartbeat reports success if and only if the broker was named when it looked, and again
  when the write that took effect came to the renewal. -/
  reports : ∀ f ∈ moments, ∀ i b named, f.Reports i b (.ok named) →
    (named = false ∧ ∃ own, f.Finds i b own false) ∨
    ∃ k r own w base found, [k, r, f].Sublist moments ∧ k.Finds i b own true ∧
      r.Renews b (brokers b) k.before.tickets k.before.clock w base found ∧
      (named = true ↔ found.broker = some (brokers b).address)

/-- Past the look: the heartbeat waits for its renewal, or has its result. -/
def Proc.HasLooked : Proc → Prop
  | .renewing _ _ _ | .ended => True
  | _ => False

/-- Nothing has happened yet, and no engine will lose sight of what it was given. -/
structure Untouched (start : Cluster) (brokers : BrokerId → Broker.Options) : Prop where
  procs : start.procs = []
  written : ∀ e, start.written e = []
  brokers : ∀ b, (start.seats b).options = brokers b
  based : start.Based
  sound : ∀ acts e, ∃ timeout, Ledger.Sound timeout ((start.run acts).ledger e)

variable {start c : Cluster} {brokers : BrokerId → Broker.Options} {acts : List Act} {act : Act}
  {k m r f : Moment} {i : ProcId} {b : BrokerId} {own named : Bool} {e : EngineId} {w : Write}
  {p q : Proc} {ticket : Ticket}

/-! ## What follows the look -/

theorem Moment.Finds.after_of_false (h : k.Finds i b own false) :
    k.after = k.before.finishBeat i b own (.ok false) := by
  obtain ⟨answer, hq, hleads⟩ := h.found
  rw [Moment.after, h.act, step, proceed, hq]
  show k.before.followBeat i b own (Broker.heartbeat _ _ answer) = _
  rw [Broker.heartbeat_of_not_leads hleads]
  rfl

theorem Moment.Finds.after_of_true (h : k.Finds i b own true) :
    k.after = (k.before.submit (.ofBroker b)
      (.renewBroker (k.before.seats b).options.address k.before.clock)).setProc i
        (.renewing b own k.before.tickets) := by
  obtain ⟨answer, hq, hleads⟩ := h.found
  rw [Moment.after, h.act, step, proceed, hq]
  show k.before.followBeat i b own (Broker.heartbeat _ _ answer) = _
  rw [Broker.heartbeat_of_leads hleads]
  rfl

theorem Moment.Finds.lt_length (h : k.Finds i b own named) : i < k.before.procs.length := by
  obtain ⟨answer, hq, -⟩ := h.found
  exact (List.getElem?_eq_some_iff.1 hq).1

theorem Moment.Finds.ended (h : k.Finds i b own false) : k.after.procs[i]? = some .ended := by
  rw [h.after_of_false, procs_finishBeat]
  exact List.getElem?_set_self h.lt_length

theorem Moment.Finds.waits (h : k.Finds i b own true) :
    k.after.procs[i]? = some (.renewing b own k.before.tickets) := by
  have hprocs : k.after.procs = k.before.procs.set i (.renewing b own k.before.tickets) := by
    rw [h.after_of_true]
    exact congrArg (List.set · i _) (procs_submit _)
  rw [hprocs]
  exact List.getElem?_set_self h.lt_length

theorem tickets_stopBroker : (c.stopBroker b).tickets = c.tickets := by
  unfold stopBroker
  split
  · unfold stopEngine
    split <;> rfl
  · rfl

theorem tickets_finishBeat (result : Except Broker.Error Bool) :
    (c.finishBeat i b own result).tickets = c.tickets := by
  fun_cases finishBeat c i b own result
  · exact tickets_stopBroker
  · rfl

theorem submit_fields (m : Mutation) :
    (c.submit e m).tickets = c.tickets + 1 ∧
      ((c.submit e m).log = .accepted e ⟨c.tickets, m⟩ :: c.log ∨
        (c.submit e m).log = .rejected e ⟨c.tickets, m⟩ :: c.log) := by
  rw [submit]
  split
  · exact ⟨rfl, .inr rfl⟩
  · exact ⟨rfl, .inl rfl⟩

/-! ## A heartbeat looks once -/

theorem hasLooked_step (act : Act) (h : ∃ q, c.procs[i]? = some q ∧ q.HasLooked) :
    ∃ q, (c.step act).procs[i]? = some q ∧ q.HasLooked := by
  obtain ⟨q, hq, hlooked⟩ := h
  have hi : i < c.procs.length := (List.getElem?_eq_some_iff.1 hq).1
  have hlength : i < (c.step act).procs.length := Nat.lt_of_lt_of_le hi (length_le_step act)
  have hafter := List.getElem?_eq_getElem hlength
  refine ⟨_, hafter, ?_⟩
  cases procStep hafter with
  | stays hsame =>
    rw [Option.some.inj (hsame.symm.trans hq)]
    exact hlooked
  | lands _ hold =>
    cases hq.symm.trans hold
    cases hlooked
  | goesOn _ hold honward =>
    rw [honward, ← Option.some.inj (hq.symm.trans hold)]
    cases q with
    | renewing b own ticket =>
      rw [onward]
      split <;> trivial
    | ended => trivial
    | awaiting | loop | registering => cases hlooked
  | comes hnew => exact absurd hi (Nat.not_lt_of_le hnew)

theorem Moment.Finds.hasLooked (h : k.Finds i b own named) :
    ∃ q, k.after.procs[i]? = some q ∧ q.HasLooked := by
  cases named with
  | false => exact ⟨_, h.ended, trivial⟩
  | true => exact ⟨_, h.waits, trivial⟩

theorem Moment.Finds.not_again {b' : BrokerId} {own' named' : Bool} (h : k.Finds i b own named)
    (horder : [k, m].Sublist (start.trail acts)) : ¬ m.Finds i b' own' named' := by
  intro hagain
  obtain ⟨between, hbetween, -⟩ := exists_between horder
  have hafter := run_induction (P := fun c => ∃ q, c.procs[i]? = some q ∧ q.HasLooked)
    h.hasLooked (fun _ => hasLooked_step) between
  rw [← hbetween] at hafter
  obtain ⟨q, hq, hlooked⟩ := hafter
  obtain ⟨answer, hwaits, -⟩ := hagain.found
  cases hwaits.symm.trans hq
  cases hlooked

/-! ## Where a renewal comes from -/

theorem looping_ne_renewing {epoch : Nat} {next : Engine.LoopStep} :
    c.looping e epoch next ≠ .renewing b own ticket := by
  cases next <;> exact nofun

theorem brokering_ne_renewing {d : BrokerId} {next : Broker.StartStep} :
    c.brokering d next ≠ .renewing b own ticket := by
  cases next <;> exact nofun

theorem onward_eq_renewing (h : c.onward p = .renewing b own ticket) :
    p = .renewing b own ticket ∨ ∃ answer, p = .awaiting (.beat b own) (.landed answer) ∧
      (c.seats b).options.election.leads answer = .ok true ∧ ticket = c.tickets := by
  revert h
  fun_cases onward c p
  case case1 a caller answer =>
    intro h
    cases caller with
    | commit => exact absurd h looping_ne_renewing
    | broker => exact absurd h brokering_ne_renewing
    | start | election =>
      rw [resumed] at h
      split at h <;> cases h
    | client => cases h
    | beat =>
      rw [resumed] at h
      split at h
      · cases h
      next renewal hrenew =>
        cases h
        exact .inr ⟨answer, rfl, Broker.leads_of_renew hrenew, rfl⟩
  case case2 => exact fun h => absurd h looping_ne_renewing
  case case6 =>
    intro h
    cases h
    exact .inl rfl
  all_goals
    intro h
    cases h

theorem newcomer_ne_renewing : .renewing b own ticket ∉ c.newcomers act := by
  intro hmem
  rcases newcomer_cases hmem with heq | ⟨d, epoch, heq⟩ | ⟨a, caller, heq, -⟩ <;> cases heq

theorem exists_finds (hstart : start.procs = [])
    (h : (start.run acts).procs[i]? = some (.renewing b own ticket)) :
    ∃ k ∈ start.trail acts, k.Finds i b own true ∧ ticket = k.before.tickets := by
  have hstep (m : Moment) (hq : m.after.procs[i]? = some (.renewing b own ticket)) :
      m.before.procs[i]? = some (.renewing b own ticket) ∨
        m.Finds i b own true ∧ ticket = m.before.tickets := by
    cases procStep hq with
    | stays hold => exact .inl hold
    | lands _ _ hlanded => cases hlanded
    | goesOn hact hold honward =>
      rcases onward_eq_renewing honward.symm with rfl | ⟨answer, rfl, hleads, hticket⟩
      · exact .inl hold
      · exact .inr ⟨⟨hact, answer, hold, hleads⟩, hticket⟩
    | comes _ hmem => exact absurd hmem newcomer_ne_renewing
  rcases exists_moment (P := fun c => c.procs[i]? = _) hstep h with hfirst | hlater
  · cases (getElem?_of_procs_eq_nil hstart).symm.trans hfirst
  · exact hlater

/-! ## What is known under the ticket of a renewal -/

theorem taken_submit {d : EngineId} {mutation : Mutation} {p : Pending}
    (hp : p ∈ ((c.submit d mutation).ledger e).taken) :
    p ∈ (c.ledger e).taken ∨ e = d ∧ p = ⟨c.tickets, mutation⟩ := by
  by_cases hd : d = e
  · subst hd
    rcases ledger_submit_self (c := c) (e := d) mutation with heq | heq
    · rw [heq] at hp
      exact .inl hp
    · rw [heq] at hp
      rcases List.mem_cons.1 hp with hnew | hold
      · exact .inr ⟨rfl, hnew⟩
      · exact .inl hold
  · rw [ledger_submit_other mutation hd] at hp
    exact .inl hp

/-- Ever after, the ticket stands for the renewal. -/
theorem Moment.Finds.of_taken (h : k.Finds i b own true)
    (hfresh : ∀ p ∈ (k.before.ledger e).taken, p.ticket < k.before.tickets) {l : Ledger}
    (hgrows : (k.after.ledger e).Grows l) {p : Pending} (hp : p ∈ l.taken)
    (hticket : p.ticket = k.before.tickets) :
    e = .ofBroker b ∧
      p = ⟨k.before.tickets, .renewBroker (k.before.seats b).options.address k.before.clock⟩ := by
  have htickets : k.after.tickets = k.before.tickets + 1 := by
    rw [h.after_of_true]
    exact (submit_fields _).1
  rcases hgrows.taken p hp with hold | hnew
  · rw [h.after_of_true] at hold
    rcases taken_submit hold with hbefore | hsubmitted
    · exact absurd hticket (Nat.ne_of_lt (hfresh p hbefore))
    · exact hsubmitted
  · have hsubmitted : k.before.tickets < k.after.tickets := htickets ▸ Nat.lt_succ_self _
    exact absurd hticket (Nat.ne_of_gt (Nat.lt_of_lt_of_le hsubmitted hnew))

namespace Untouched

variable (h : start.Untouched brokers)

include h

theorem sound_of_mem (hm : m ∈ start.trail acts) (e : EngineId) :
    ∃ timeout, Ledger.Sound timeout (m.before.ledger e) :=
  forall_trail (P := fun c => ∃ timeout, Ledger.Sound timeout (c.ledger e))
    (fun acts => h.sound acts e) m hm

theorem based_of_mem (hm : m ∈ start.trail acts) : m.before.Based :=
  forall_trail (fun acts => h.based.run acts) m hm

theorem options_of_mem (hm : m ∈ start.trail acts) (b : BrokerId) :
    (m.before.seats b).options = brokers b ∧
      (m.before.engines (.ofBroker b)).options = (brokers b).engine := by
  have hoptions : (m.before.seats b).options = brokers b :=
    forall_trail (P := fun c => (c.seats b).options = brokers b)
      (fun acts => (broker_options_eq (options_run start acts) b).trans (h.brokers b)) m hm
  exact ⟨hoptions, ((h.based_of_mem hm).outfitted b).trans (congrArg _ hoptions)⟩

/-- The ticket of a renewal stands for nothing else, and for nothing before. -/
theorem of_ticket (hk : k ∈ start.trail acts) (hfinds : k.Finds i b own true)
    (hm : m ∈ start.trail acts) {p : Pending} (hp : p ∈ (m.before.ledger e).taken)
    (hticket : p.ticket = k.before.tickets) :
    [k, m].Sublist (start.trail acts) ∧ e = .ofBroker b ∧
      p = ⟨k.before.tickets, .renewBroker (brokers b).address k.before.clock⟩ := by
  obtain ⟨_, hsound⟩ := h.sound_of_mem hm e
  obtain ⟨_, hsound'⟩ := h.sound_of_mem hk e
  -- Tickets only grow: up to `k` this one was not given to anybody.
  have hfresh : p.ticket < m.before.tickets := hsound.fresh p hp
  rcases eq_or_sublist_trail hk hm with rfl | horder | horder
  · exact absurd hticket (Nat.ne_of_lt hfresh)
  · have hrequest := hfinds.of_taken hsound'.fresh (grows_of_sublist horder e) hp hticket
    rw [(h.options_of_mem hk b).1] at hrequest
    exact ⟨horder, hrequest⟩
  · have hstep : m.before.tickets ≤ m.after.tickets := (m.grows e).tickets
    have hbetween : m.after.tickets ≤ k.before.tickets := (grows_of_sublist horder e).tickets
    have hearlier := Nat.lt_of_lt_of_le hfresh (Nat.le_trans hstep hbetween)
    exact absurd hticket (Nat.ne_of_lt hearlier)

/-- Whatever an engine is about to write under the ticket renews the heartbeat. -/
theorem folds (hk : k ∈ start.trail acts) (hfinds : k.Finds i b own true)
    (hm : m ∈ start.trail acts) (hcarries : m.Carries e w) (hw : w.folds k.before.tickets) :
    [k, m].Sublist (start.trail acts) ∧ e = .ofBroker b ∧
      ∃ base found, w.Renews (brokers b).engine.heartbeatTimeout k.before.tickets
        (brokers b).address k.before.clock base found := by
  obtain ⟨_, hsound⟩ := h.sound_of_mem hm e
  obtain ⟨p, hp, hticket⟩ := Write.folds_iff.1 hw
  obtain ⟨horder, rfl, rfl⟩ := h.of_ticket hk hfinds hm (hcarries.taken hsound hp) hticket
  obtain ⟨j, epoch, conflicts, expected, flight, hq⟩ := hcarries
  obtain ⟨base, -, hfolds⟩ := (h.based_of_mem hm).writes j _ _ _ _ _ _ _ hq
  obtain ⟨earlier, later, hbatch⟩ := List.append_of_mem hp
  rw [(h.options_of_mem hm b).2] at hfolds
  obtain ⟨found, hrenews, -⟩ := Write.FoldsOver.renews hfolds hbatch
  exact ⟨horder, rfl, base, found, hrenews⟩

/-- A write that takes effect under the ticket, with the result of the renewal. -/
theorem renews (hk : k ∈ start.trail acts) (hfinds : k.Finds i b own true)
    (hr : r ∈ start.trail acts) (hwrites : r.Writes e w) {p : Pending}
    {earlier later : List Pending} (hbatch : w.batch = earlier ++ p :: later)
    (hticket : p.ticket = k.before.tickets) :
    [k, r].Sublist (start.trail acts) ∧ ∃ base found,
      r.Renews b (brokers b) k.before.tickets k.before.clock w base found ∧
      w.results[earlier.length]? = some (.renewed (found.broker = some (brokers b).address)) ∧
      ((∀ p ∈ w.batch, ¬ p.mutation.IsRegistration) → w.document.broker = base.broker) := by
  obtain ⟨_, hsound⟩ := h.sound_of_mem hr e
  have hp : p ∈ w.batch := hbatch ▸ List.mem_append_right _ List.mem_cons_self
  obtain ⟨horder, rfl, rfl⟩ :=
    h.of_ticket hk hfinds hr (hwrites.carries.taken hsound hp) hticket
  obtain ⟨j, epoch, conflicts, expected, token, hputs⟩ := id hwrites
  obtain ⟨entry, base, hentry, hholds, hfolds⟩ := (h.based_of_mem hr).replaces hputs
  rw [(h.options_of_mem hr b).2] at hentry hfolds
  obtain ⟨found, hrenews, hresult⟩ := Write.FoldsOver.renews hfolds hbatch
  exact ⟨horder, base, found, ⟨hwrites, ⟨entry, hentry, hholds⟩, hrenews⟩, hresult,
    Write.FoldsOver.broker_eq hfolds⟩

/-- A renewal that has a result has it from the write that took effect. -/
theorem exists_renews (hq : (start.run acts).procs[i]? = some (.renewing b own ticket))
    {result : MutationResult} (hverdict : (start.run acts).verdict? ticket = some (.ok result)) :
    ∃ k r w base found, [k, r].Sublist (start.trail acts) ∧ k.Finds i b own true ∧
      r.Renews b (brokers b) k.before.tickets k.before.clock w base found ∧
      result = .renewed (found.broker = some (brokers b).address) := by
  obtain ⟨k, hk, hfinds, rfl⟩ := exists_finds h.procs hq
  obtain ⟨e, s, hs, hticket, hok⟩ := settled_of_verdict? hverdict
  obtain ⟨_, hsound⟩ := h.sound acts e
  obtain ⟨w, mutation, hfolds, hzip, -⟩ := hsound.result hs hok
  have hwritten : w ∈ (start.run acts).written e :=
    (List.mem_filter.1 (hfolds ▸ List.mem_singleton_self w)).1
  rcases exists_writes hwritten with hfirst | ⟨r, hr, hwrites⟩
  · rw [h.written e] at hfirst
    cases hfirst
  · obtain ⟨earlier, later, hbatch, hgiven⟩ := Engine.exists_split_of_mem_zip hzip
    obtain ⟨horder, base, found, hrenews, hresult, -⟩ :=
      h.renews hk hfinds hr hwrites hbatch hticket
    exact ⟨k, r, w, base, found, horder, hfinds, hrenews,
      Option.some.inj (hgiven.symm.trans hresult)⟩

end Untouched

/-! ## What a heartbeat sees -/

theorem Moment.Answers.shows {l : Moment} {answer : Store.Answer .read}
    (h : l.Answers i (.beat b own) answer)
    (hleads : (l.before.seats b).options.election.leads answer = .ok named) :
    l.Shows (l.before.seats b).options named := by
  obtain ⟨failure, -, rfl⟩ := h.lands
  let key := (l.before.seats b).options.engine.stateKey
  cases failure with
  | some cause => cases hleads
  | none =>
    have hanswer : (l.before.memory.finish ⟨l.before.callOf (.beat b own), none⟩).1 =
        .ok ((l.before.memory.entry? key).map Store.Memory.Entry.toObject) := rfl
    rw [hanswer] at hleads
    rw [Moment.Shows]
    cases hentry : l.before.memory.entry? key with
    | none =>
      rw [hentry] at hleads
      cases hleads
      rfl
    | some entry =>
      rw [hentry, Option.map_some, Election.leads] at hleads
      split at hleads
      · cases hleads
      next document hdecode =>
        cases hleads
        exact ⟨document, hdecode, beq_iff_eq⟩

theorem Untouched.looked (h : start.Untouched brokers) (hk : k ∈ start.trail acts)
    (hfinds : k.Finds i b own named) :
    ∃ l, [l, k].Sublist (start.trail acts) ∧ l.act = .land i ∧ l.Shows (brokers b) named := by
  obtain ⟨answer, hq, hleads⟩ := hfinds.found
  obtain ⟨before, hbefore, hextend⟩ := exists_before hk
  rw [hbefore] at hq
  obtain ⟨l, hl, hanswers⟩ := exists_answers h.procs hq
  have horder := hextend [l] (List.singleton_sublist.2 hl)
  have hoptions := (h.options_of_mem (horder.subset List.mem_cons_self) b).1
  rw [(h.options_of_mem hk b).1, ← hoptions] at hleads
  exact ⟨l, horder, hanswers.act, hoptions ▸ hanswers.shows hleads⟩

/-! ## All of it -/

theorem untouched_init (engines : Nat → Engine.Options) (brokers : BrokerId → Broker.Options)
    {memory : Store.Memory} (hnumbered : memory.IsNumbered) (ids : IdSupply) (clock : Millis) :
    (init engines brokers memory ids clock).Untouched brokers where
  procs := rfl
  written _ := rfl
  brokers _ := rfl
  based := based_init engines brokers hnumbered ids clock
  sound acts e := ⟨_, sound_run engines brokers memory ids clock acts e⟩

theorem Untouched.reports (h : start.Untouched brokers) (hf : f ∈ start.trail acts)
    (hreports : f.Reports i b (.ok named)) :
    (named = false ∧ ∃ own, f.Finds i b own false) ∨
    ∃ k r own w base found, [k, r, f].Sublist (start.trail acts) ∧ k.Finds i b own true ∧
      r.Renews b (brokers b) k.before.tickets k.before.clock w base found ∧
      (named = true ↔ found.broker = some (brokers b).address) := by
  cases hreports with
  | @atOnce own answer hact hq hdone =>
    obtain ⟨hnamed, hleads⟩ := Broker.leads_of_done hdone
    exact .inl ⟨hnamed, own, hact, answer, hq, hleads⟩
  | @renewed own ticket verdict hact hq hverdict hresult =>
    cases verdict with
    | error cause => cases hresult
    | ok result =>
      cases hresult
      obtain ⟨before, hbefore, hextend⟩ := exists_before hf
      rw [hbefore] at hq hverdict
      obtain ⟨k, r, w, base, found, horder, hfinds, hrenews, rfl⟩ := h.exists_renews hq hverdict
      exact .inr ⟨k, r, own, w, base, found, hextend [k, r] horder, hfinds, hrenews,
        decide_eq_true_iff⟩

/-- **A heartbeat undoes no takeover, and reports what it has come to**, in every run: with any
takeovers, mutations in any batches and conflicts in between. -/
theorem honestBeats_run (engines : Nat → Engine.Options) (brokers : BrokerId → Broker.Options)
    (memory : Store.Memory) (ids : IdSupply) (clock : Millis) (acts : List Act)
    (hnumbered : memory.IsNumbered) :
    HonestBeats brokers ((init engines brokers memory ids clock).trail acts) := by
  have h := untouched_init engines brokers hnumbered ids clock
  exact {
    once := by
      intro k hk k' hk' i b own named b' own' named' hfinds hfinds'
      rcases eq_or_sublist_trail hk hk' with heq | horder | horder
      · exact heq
      · exact absurd hfinds' (hfinds.not_again horder)
      · exact absurd hfinds (hfinds'.not_again horder)
    looked := fun k hk i b own named hfinds => h.looked hk hfinds
    refrains := by
      intro k hk i b own hfinds
      obtain ⟨answer, hq, hleads⟩ := hfinds.found
      refine ⟨.atOnce hfinds.act hq (Broker.heartbeat_of_not_leads hleads), ?_, hfinds.ended⟩
      rw [hfinds.after_of_false]
      exact tickets_finishBeat _
    submits := by
      intro k hk i b own hfinds
      refine ⟨hfinds.waits, ?_⟩
      rw [hfinds.after_of_true, (h.options_of_mem hk b).1]
      exact (submit_fields _).2
    folds := fun k hk i b own hfinds m hm e w => h.folds hk hfinds hm
    lands := by
      intro k hk i b own hfinds r hr e w hwrites hw
      obtain ⟨p, hp, hticket⟩ := Write.folds_iff.1 hw
      obtain ⟨earlier, later, hbatch⟩ := List.append_of_mem hp
      obtain ⟨-, base, found, hrenews, -, hbroker⟩ :=
        h.renews hk hfinds hr hwrites hbatch hticket
      refine ⟨⟨base, found, hrenews, hbroker⟩, fun r' hr' e' w' hwrites' hw' => ?_⟩
      obtain ⟨-, rfl, -⟩ := h.folds hk hfinds hr hwrites.carries hw
      obtain ⟨-, rfl, -⟩ := h.folds hk hfinds hr' hwrites'.carries hw'
      exact eq_of_writes (fun m hm => h.sound_of_mem hm _) hr' hr hwrites' hwrites hw' hw
    reports := fun f hf i b named hreports => h.reports hf hreports }

/-- A broker's start and two heartbeats.  While the second one waits for its renewal, another broker
takes over. -/
def pulses : List Act :=
  [.startBroker 0, .land 0, .proceed 0, .land 0, .proceed 0, .land 0, .proceed 0, .land 0,
    .proceed 0, .proceed 1, .proceed 1, .proceed 1, .land 1, .proceed 1, .proceed 0,
    .beat 0 false, .land 2, .proceed 2, .proceed 1, .proceed 1, .land 1, .proceed 1, .proceed 2,
    .beat 0 false, .land 3, .proceed 3, .elect ⟨"1", "queue.json", 10000⟩ 20000, .land 4,
    .proceed 4, .land 4, .proceed 1, .proceed 1, .land 1, .proceed 1, .proceed 1, .land 1,
    .proceed 1, .land 1, .proceed 1, .proceed 3]

set_option maxRecDepth 1000 in
theorem honestBeats_pulses :
    Store.Memory.empty.IsNumbered ∧
    HonestBeats (fun b => .standard (toString b)) (blank.trail pulses) ∧
    (∃ f ∈ blank.trail pulses, f.Reports 2 0 (.ok true)) ∧
    (∃ k ∈ blank.trail pulses, k.Finds 3 0 false true) ∧
    ∃ f ∈ blank.trail pulses, f.Reports 3 0 (.ok false) := by
  have hnumbered : Store.Memory.empty.IsNumbered := nofun
  have hfirst : (blank.run (pulses.take 22)).procs[2]? = some (.renewing 0 false 1) := rfl
  have hsecond : (blank.run (pulses.take 39)).procs[3]? = some (.renewing 0 false 2) := rfl
  have hrenewed : (blank.run (pulses.take 22)).verdict? 1 = some (.ok (.renewed true)) := by
    decide +kernel
  have hspared : (blank.run (pulses.take 39)).verdict? 2 = some (.ok (.renewed false)) := by
    decide +kernel
  obtain ⟨k, hk, hfinds, -⟩ := exists_finds rfl hsecond
  refine ⟨hnumbered, honestBeats_run _ _ .empty _ _ pulses hnumbered, ?_, ⟨k, ?_, hfinds⟩, ?_⟩
  · exact ⟨⟨blank.run (pulses.take 22), .proceed 2⟩,
      mem_trail.2 ⟨pulses.take 22, pulses.drop 23, rfl, rfl⟩,
      .renewed rfl hfirst hrenewed rfl⟩
  · rw [← List.take_append_drop 39 pulses, trail_append]
    exact List.mem_append_left _ hk
  · exact ⟨⟨blank.run (pulses.take 39), .proceed 3⟩,
      mem_trail.2 ⟨pulses.take 39, [], rfl, rfl⟩,
      .renewed rfl hsecond hspared rfl⟩

end LeaseQueue.Cluster
