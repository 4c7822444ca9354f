import LeaseQueue.Proofs.Cluster.Succession
import LeaseQueue.Proofs.Cluster.Tenure

/-!
# Leaders in office

A broker takes over only from a leader who has been silent for too long.  It then registers by a
write of its own engine, and such a write is folded over whatever is in the store by then: if it
comes late, another broker may have taken over in the meantime, and is displaced although it is
heard of.  So a leader is safe as long as registrations are in time:

  `c.clock.IsTrulyPast d.brokerHeartbeat timeout ∨ Belated timeout (c.step act)`

whenever a document `d` with one broker is replaced by one with another.  A registration is belated
if it takes effect when the heartbeat by which its broker was elected is already stale.
-/

namespace LeaseQueue.Cluster

open Engine (Ledger Pending)

/-- Whatever else a document may hold, a reader learns who is in charge and since when. -/
def leading : Recall where
  fit _ := True
  fits _ := True
  agree d d' := d'.broker = d.broker ∧ d'.brokerHeartbeat = d.brokerHeartbeat
  refl _ := ⟨rfl, rfl⟩
  decode _ hdecode := Document.broker_of_decode_encode hdecode
  fit_of_agree _ _ := trivial
  fit_empty := trivial
  fit_registerBroker _ _ _ := trivial
  fits_registerBroker _ _ := trivial
  fits_renewBroker _ _ := trivial
  fit_pass _ _ _ _ _ := trivial

/-- Brokers that contend for one document, under one timeout. -/
structure Rivals (brokers : BrokerId → Broker.Options) (key : String) (timeout : Millis) :
    Prop where
  address : ∀ b b', (brokers b).address = (brokers b').address → b = b'
  key : ∀ b, (brokers b).engine.stateKey = key
  timeout : ∀ b, (brokers b).heartbeatTimeout = timeout

variable {timeout : Millis} {key : String} {c c' : Cluster} {hist : List Revision} {b : BrokerId}
  {i : ProcId} {e : EngineId} {won : Document}

/-! ## What a put does to the leader -/

/-- How a put that makes `d'` of `d` deals with the leader. -/
inductive Handover (timeout : Millis) (c c' : Cluster) (d d' : Document) : Prop where
  /-- An election found no leader, or one that had been silent for too long. -/
  | takeover (h : d.broker = none ∨ c.clock.IsTrulyPast d.brokerHeartbeat timeout)
  | work (h : d'.broker = d.broker ∧ d'.brokerHeartbeat = d.brokerHeartbeat)
  /-- A registered broker renews its own heartbeat, if any. -/
  | renewal {b : BrokerId} (hregistered : c.Registered b) (hbroker : d'.broker = d.broker)
    (hother : d.broker ≠ some (c.seats b).options.address →
      d'.brokerHeartbeat = d.brokerHeartbeat)
  | registration {b : BrokerId} {won : Document} (hnot : ¬ c.Registered b)
    (hregistered : c'.Registered b) (hcrowned : .crowned b won ∈ c.log)
    (hbelated : c.clock.IsTrulyPast won.brokerHeartbeat timeout → Belated timeout c')
    (hbroker : d'.broker = d.broker ∨ d'.broker = some (c.seats b).options.address)

section Handover

variable (hrivals : Rivals (fun b => (c.seats b).options) key timeout) (horderly : c.Orderly)
  (hsound : ∀ e, Ledger.Sound (c.engines e).options.heartbeatTimeout (c.ledger e))

theorem Mutation.speaksOf_of_lawful {m : Mutation} (h : c.Lawful (.ofBroker b) m) :
    m.SpeaksOf (c.seats b).options.address := by
  cases m with
  | registerBroker | renewBroker => exact h.1
  | enqueue | claim | heartbeat | complete => trivial

theorem Mutation.spares_of_lawful {m : Mutation} (h : c.Lawful (.ofBroker b) m)
    (hm : ¬ m.IsRegistration) {broker : Option String}
    (hbroker : c.Registered b → broker ≠ some (c.seats b).options.address) : m.Spares broker := by
  cases m with
  | registerBroker => exact absurd trivial hm
  | renewBroker address timestamp => exact h.1 ▸ hbroker h.2
  | enqueue | claim | heartbeat | complete => trivial

theorem Mutation.crowned_of_lawful {m : Mutation} (h : c.Lawful (.ofBroker b) m)
    (hm : m.IsRegistration) : ∃ won, .crowned b won ∈ c.log := by
  cases m with
  | registerBroker => exact h.2
  | renewBroker | enqueue | claim | heartbeat | complete => cases hm

include horderly hsound

theorem handover_of_registration {epoch : Nat} {point : Engine.Commit .put}
    {failure : Option Store.Error}
    (hq : c.procs[i]? = some (.awaiting (.commit (.ofBroker b) epoch point) (.sent failure)))
    {p : Pending} (hp : p ∈ point.pass.batch) (hm : p.mutation.IsRegistration) {d d' : Document}
    (hfolds : Folds c (.ofBroker b) point.pass.batch d d') {token : Store.Token}
    (memory : Store.Memory) :
    Handover timeout c (c.landed i (.commit (.ofBroker b) epoch point) (.ok token) memory) d d' := by
  obtain ⟨now, ids, rfl⟩ := hfolds
  have hlawful (p : Pending) (hp : p ∈ point.pass.batch) : c.Lawful (.ofBroker b) p.mutation :=
    horderly.lawful_of_sent hsound hq hp
  obtain ⟨won, hcrowned⟩ := Mutation.crowned_of_lawful (hlawful p hp) hm
  cases point with
  | writing pass document results expected =>
    refine .registration (horderly.not_registered_of_sent hsound hq hp hm) ?_ hcrowned ?_ ?_
    · refine ⟨⟨pass.batch, document, results⟩, ?_, p, hp, hm⟩
      exact List.mem_filterMap.2 ⟨_, List.mem_cons_self, if_pos (by simp; rfl)⟩
    · exact fun hpast =>
        .intro List.mem_cons_self ⟨hp, hm⟩ (List.mem_cons_of_mem _ hcrowned) hpast
    · refine Document.pass_speaksOf now _ ids (List.forall_mem_map.2 fun p hp => ?_)
      exact Mutation.speaksOf_of_lawful (hlawful p hp)

theorem handover_of_folds {epoch : Nat} {point : Engine.Commit .put}
    {failure : Option Store.Error}
    (hq : c.procs[i]? = some (.awaiting (.commit e epoch point) (.sent failure)))
    {d d' : Document} (hfolds : Folds c e point.pass.batch d d') {token : Store.Token}
    (memory : Store.Memory) :
    Handover timeout c (c.landed i (.commit e epoch point) (.ok token) memory) d d' := by
  have hlawful (p : Pending) (hp : p ∈ point.pass.batch) : c.Lawful e p.mutation :=
    horderly.lawful_of_sent hsound hq hp
  cases e with
  | lone n =>
    obtain ⟨now, ids, rfl⟩ := hfolds
    refine .work (Document.pass_spared now _ ids (List.forall_mem_map.2 fun p hp => ?_))
    exact Mutation.IsAboutJobs.spares (hlawful p hp) _
  | ofBroker b =>
    by_cases hregistration : ∃ p ∈ point.pass.batch, p.mutation.IsRegistration
    · obtain ⟨p, hp, hm⟩ := hregistration
      exact handover_of_registration horderly hsound hq hp hm hfolds memory
    obtain ⟨now, ids, rfl⟩ := hfolds
    have hnone (p : Pending) (hp : p ∈ point.pass.batch) : ¬ p.mutation.IsRegistration :=
      fun hm => hregistration ⟨p, hp, hm⟩
    have hspares {broker : Option String}
        (hbroker : c.Registered b → broker ≠ some (c.seats b).options.address) :
        ∀ m ∈ point.pass.batch.map (·.mutation), m.Spares broker :=
      List.forall_mem_map.2 fun p hp =>
        Mutation.spares_of_lawful (hlawful p hp) (hnone p hp) hbroker
    by_cases hregistered : c.Registered b
    · refine .renewal hregistered ?_ fun hother => ?_
      · exact Document.pass_unregistered now _ ids (List.forall_mem_map.2 hnone)
      · exact (Document.pass_spared now _ ids (hspares fun _ => hother)).2
    · exact .work (Document.pass_spared now _ ids (hspares fun h => absurd h hregistered))

include hrivals

theorem handover_of_makes {caller : Caller .put} {failure : Option Store.Error}
    (hq : c.procs[i]? = some (.awaiting caller (.sent failure))) {d d' : Document}
    (hmakes : Makes c caller d d') {token : Store.Token} (memory : Store.Memory) :
    Handover timeout c (c.landed i caller (.ok token) memory) d d' := by
  cases caller with
  | start | client => cases hmakes
  | commit e epoch point => exact handover_of_folds horderly hsound hq hmakes memory
  | election => exact (horderly.procs _ (List.mem_of_getElem? hq)).elim
  | broker b point =>
    cases point with
    | opening => cases hmakes
    | electing now attempt =>
      obtain ⟨now, hstood, -, hnone | hpast⟩ := hmakes
      · exact .takeover (.inl hnone)
      · refine .takeover (.inr ?_)
        obtain ⟨hepoch, hclock⟩ := horderly.stood _ now hstood
        have htimeout : (c.seats b).options.election.heartbeatTimeout = timeout := hrivals.timeout b
        rw [htimeout] at hpast
        exact (Millis.isTrulyPast_of_isPast hepoch hpast).mono hclock (Int.le_refl _)

end Handover

/-- A put leaves in office whoever is not yet registered, unless a registration was belated. -/
theorem Upheld.stored (h : Upheld timeout c hist b won)
    (hrivals : Rivals (fun b => (c.seats b).options) key timeout)
    (hupholds : Upholds timeout c hist) {r : Revision} {makes : Document → Document → Prop}
    (hfollows : Follows leading hist makes r.document)
    (hhandover : ∀ d, makes d r.document → Handover timeout c c' d r.document)
    (honward : Onward c c') (hnot : ¬ c'.Registered b) :
    Upheld timeout c' (r :: hist) b won := by
  have hpast (hpast : c.clock.IsTrulyPast won.brokerHeartbeat timeout) :
      Upheld timeout c' (r :: hist) b won :=
    (show Upheld timeout c (r :: hist) b won from .inr (.inl hpast)).onward honward
  rcases h with ⟨latest, rest, rfl, hbroker, hheartbeat⟩ | hold | hbelated
  · rcases hfollows with hnil | ⟨_, _, d, hhist, hagree, hmakes⟩
    · cases hnil
    cases hhist
    have hkept (hsame : r.document.broker = d.broker)
        (hsince : r.document.brokerHeartbeat = d.brokerHeartbeat) :
        Upheld timeout c' (r :: latest :: rest) b won := by
      refine .inl ⟨r, _, rfl, ?_, ?_⟩
      · rw [hsame, hagree.1, hbroker, honward.options]
      · rwa [hsince, hagree.2]
    cases hhandover d hmakes with
    | takeover htaken =>
      rcases htaken with hnone | hstale
      · rw [hagree.1, hbroker] at hnone
        cases hnone
      · rw [hagree.2] at hstale
        exact hpast (hstale.mono (Int.le_refl _) hheartbeat)
    | work hsame => exact hkept hsame.1 hsame.2
    | @renewal b' hregistered hsame hother =>
      refine hkept hsame (hother fun hown => ?_)
      rw [hagree.1, hbroker] at hown
      cases hrivals.address b b' (Option.some.inj hown)
      exact hnot (hregistered.mono honward.log)
    | @registration b' won' hfirst hregistered hcrowned hlate hchange =>
      by_cases hb : b' = b
      · exact absurd (hb ▸ hregistered) hnot
      rcases hupholds.crowned b' won' hcrowned hfirst with
        ⟨_, _, hhist, hown, _⟩ | hstale | hbelated
      · cases hhist
        rw [hbroker] at hown
        exact absurd (hrivals.address b b' (Option.some.inj hown)).symm hb
      · exact .inr (.inr (hlate hstale))
      · exact .inr (.inr (hbelated.mono honward.log))
  · exact hpast hold
  · exact .inr (.inr (hbelated.mono honward.log))

/-- **A put displaces a leader only if it is stale**, unless a registration was belated. -/
theorem Handover.displaces {d d' : Document} (h : Handover timeout c c' d d')
    (hupholds : Upholds timeout c hist) (hlog : c.log ⊆ c'.log) {r : Revision}
    {rest : List Revision} (hhist : hist = r :: rest)
    (hagree : leading.agree r.document d) {x y : String} (hx : r.document.broker = some x)
    (hy : d'.broker = some y) (hne : x ≠ y) :
    c.clock.IsTrulyPast r.document.brokerHeartbeat timeout ∨ Belated timeout c' := by
  have hsame (hbroker : d'.broker = d.broker) : False := by
    rw [hagree.1, hx, hy] at hbroker
    exact hne (Option.some.inj hbroker).symm
  cases h with
  | takeover htaken =>
    rcases htaken with hnone | hstale
    · rw [hagree.1, hx] at hnone
      cases hnone
    · exact .inl (hagree.2 ▸ hstale)
  | work hwork => exact (hsame hwork.1).elim
  | renewal _ hbroker _ => exact (hsame hbroker).elim
  | @registration b won hfirst hregistered hcrowned hlate hchange =>
    rcases hupholds.crowned b won hcrowned hfirst with ⟨_, _, hlatest, hown, _⟩ | hstale | hbelated
    · rw [hhist] at hlatest
      cases hlatest
      rcases hchange with hbroker | hbroker
      · exact (hsame hbroker).elim
      · rw [hx] at hown
        rw [hy, ← hown] at hbroker
        exact absurd (Option.some.inj hbroker).symm hne
    · exact .inr (hlate hstale)
    · exact .inr (hbelated.mono hlog)

/-! ## Landings -/

theorem onward_landed (c : Cluster) (i : ProcId) {a : Store.Access} (caller : Caller a)
    (answer : Store.Answer a) (memory : Store.Memory) :
    Onward c (c.landed i caller answer memory) :=
  ⟨List.subset_cons_self _ _, fun _ => rfl, Int.le_refl _⟩

theorem key_callOf_broker (b : BrokerId) {a : Store.Access} (point : Broker.Startup a) :
    (c.callOf (.broker b point)).key = (c.seats b).options.engine.stateKey := by
  cases point with
  | electing now attempt => cases attempt <;> rfl
  | opening now start => cases start <;> rfl

/-- Everyone stays in office, and so does the broker whose call it was. -/
theorem Upholds.landed (h : Upholds timeout c hist) {a : Store.Access} {caller : Caller a}
    {answer : Store.Answer a} {memory : Store.Memory} {hist' : List Revision}
    (horderly : (c.landed i caller answer memory).Orderly)
    (hsound : ∀ e, Ledger.Sound
      ((c.landed i caller answer memory).engines e).options.heartbeatTimeout
      ((c.landed i caller answer memory).ledger e))
    (hothers : ∀ b won, Upheld timeout c hist b won →
      ¬ (c.landed i caller answer memory).Registered b →
      Upheld timeout (c.landed i caller answer memory) hist' b won)
    (hown : ∀ b (point : Broker.Startup a) won, caller = .broker b point →
      crown? (c.seats b).options point answer = some won →
      Upheld timeout (c.landed i caller answer memory) hist' b won) :
    Upholds timeout (c.landed i caller answer memory) hist' where
  crowned b won hmem hnot := by
    refine hothers b won (h.crowned b won ((List.mem_cons.1 hmem).resolve_left nofun) ?_) hnot
    exact fun hregistered => hnot (hregistered.mono (List.subset_cons_self _ _))
  won j a' point answer' b won hq hcrown := by
    rcases getElem?_procs_set hq with ⟨-, hnew⟩ | hold
    · cases hnew
      exact hown b point won rfl hcrown
    · refine hothers b won (h.won j a' point answer' b won hold hcrown) ?_
      exact horderly.not_registered_of_start hsound hq

/-- Whoever wins by a read has read a document that names it. -/
theorem crown?_read {options : Broker.Options} {point : Broker.Startup .read}
    {answer : Store.Answer .read} (h : crown? options point answer = some won) :
    ∃ object, answer = .ok (some object) ∧ Document.decode object.data = .ok won ∧
      won.broker = some options.address := by
  cases point with
  | opening => cases h
  | electing now attempt =>
    cases attempt with
    | looking now =>
      cases answer with
      | error cause => cases h
      | ok found =>
        cases found with
        | none => cases h
        | some object =>
          simp only [crown?, wonBy] at h
          split at h
          next document hdecode =>
            split at h
            next hif =>
              cases h
              exact ⟨object, rfl, hdecode, of_decide_eq_true (Bool.and_eq_true_iff.1 hif).1⟩
            · cases h
          · cases h

/-- Whoever wins by a put has stored a document that names it. -/
theorem crown?_put {point : Broker.Startup .put} {token : Store.Token}
    (hcaller : CallerKnown leading key c hist (.broker b point))
    (hkey : (c.seats b).options.engine.stateKey = key)
    (h : crown? (c.seats b).options point (.ok token) = some won) :
    Caller.document? (.broker b point) = some won ∧
      won.broker = some (c.seats b).options.address := by
  cases point with
  | opening => cases h
  | electing now attempt =>
    cases attempt with
    | founding document =>
      obtain ⟨now, rfl⟩ := hcaller
      cases h
      exact ⟨rfl, rfl⟩
    | takingOver document expected =>
      obtain ⟨d, -, ⟨now, -, rfl, -⟩, -⟩ := hcaller hkey
      cases h
      exact ⟨rfl, rfl⟩

theorem Upholds.land (h : Upholds timeout c hist)
    (hrivals : Rivals (fun b => (c.seats b).options) key timeout)
    (htraced : Traced leading key c hist) (horderly : c.Orderly)
    (hsound : ∀ e, Ledger.Sound (c.engines e).options.heartbeatTimeout (c.ledger e))
    (hsound' : ∀ e, Ledger.Sound ((c.land i).engines e).options.heartbeatTimeout
      ((c.land i).ledger e))
    {hist' : List Revision} (heffect : Effect leading key c hist i hist') :
    Upholds timeout (c.land i) hist' := by
  have hkey (b : BrokerId) : (c.seats b).options.engine.stateKey = key := hrivals.key b
  cases heffect with
  | idle heq => exact heq.symm ▸ h
  | @read caller failure answer hq heq hlatest =>
    rw [heq] at hsound' ⊢
    refine h.landed (horderly.landed hq answer _) hsound'
      (fun b won hold _ => hold.onward (onward_landed ..)) ?_
    rintro b point won rfl hcrown
    obtain ⟨object, hobject, hdecode, hbroker⟩ := crown?_read hcrown
    have hat : (c.callOf (.broker b point)).key = key := (key_callOf_broker b point).trans (hkey b)
    obtain ⟨r, rest, rfl, rfl⟩ := hlatest hat object hobject
    obtain ⟨hholds, hfit⟩ := htraced.holds r List.mem_cons_self
    have hagree := hholds.agree hfit hdecode
    have hsince : won.brokerHeartbeat.toInt ≤ r.document.brokerHeartbeat.toInt :=
      Int.le_of_eq (congrArg Int64.toInt hagree.2)
    exact .inl ⟨r, rest, rfl, hagree.1.symm.trans hbroker, hsince⟩
  | @refused caller failure cause hq heq =>
    rw [heq] at hsound' ⊢
    refine h.landed (horderly.landed hq _ _) hsound'
      (fun b won hold _ => hold.onward (onward_landed ..)) ?_
    rintro b point won rfl hcrown
    cases point with
    | opening => cases hcrown
    | electing now attempt => cases attempt <;> cases hcrown
  | @elsewhere caller failure token memory hq hother heq =>
    rw [heq] at hsound' ⊢
    refine h.landed (horderly.landed hq _ _) hsound'
      (fun b won hold _ => hold.onward (onward_landed ..)) ?_
    rintro b point won rfl hcrown
    exact absurd ((key_callOf_broker b point).trans (hkey b)) hother
  | @stored caller failure token memory r hq hat hdata hdocument hfollows heq =>
    rw [heq] at hsound' ⊢
    have hhandover (d : Document) (hmakes : Makes c caller d r.document) :
        Handover timeout c (c.landed i caller (.ok token) memory) d r.document :=
      handover_of_makes hrivals horderly hsound hq hmakes memory
    refine h.landed (horderly.landed hq _ _) hsound'
      (fun b won hold hnot => hold.stored hrivals h hfollows hhandover (onward_landed ..) hnot) ?_
    rintro b point won rfl hcrown
    obtain ⟨hwon, hbroker⟩ := crown?_put (htraced.procs _ (List.mem_of_getElem? hq)) (hkey b) hcrown
    cases hdocument.symm.trans hwon
    exact .inl ⟨r, hist, rfl, hbroker, Int.le_refl _⟩

/-! ## Runs -/

/-- What holds in every run of brokers that contend for one document. -/
structure Governed (timeout : Millis) (key : String) (c : Cluster) (hist : List Revision) :
    Prop where
  traced : Traced leading key c hist
  orderly : c.Orderly
  upholds : Upholds timeout c hist

/-- Every act is led, and others stay away from the document. -/
def Led (key : String) : Cluster → List Act → Prop
  | _, [] => True
  | c, act :: acts => (act.IsLed c ∧ act.Respects leading key) ∧ Led key (c.step act) acts

theorem led_append {acts more : List Act} :
    Led key c (acts ++ more) ↔ Led key c acts ∧ Led key (c.run acts) more := by
  induction acts generalizing c with
  | nil => exact (and_iff_right trivial).symm
  | cons act acts ih => exact (and_congr_right fun _ => ih).trans and_assoc.symm

section Governed

variable (h : Governed timeout key c hist)
  (hrivals : Rivals (fun b => (c.seats b).options) key timeout)
  (hsound : ∀ e, Ledger.Sound (c.engines e).options.heartbeatTimeout (c.ledger e))

include h hrivals hsound

theorem Governed.step {act : Act} (hact : act.IsLed c) (hrespects : act.Respects leading key)
    (hsound' : ∀ e, Ledger.Sound ((c.step act).engines e).options.heartbeatTimeout
      ((c.step act).ledger e)) : ∃ hist', Governed timeout key (c.step act) hist' := by
  have horderly : (c.step act).Orderly := h.orderly.step hsound hact
  rcases act.land_or with ⟨i, rfl⟩ | hne
  · obtain ⟨hist', heffect, htraced⟩ := h.traced.effect i
    exact ⟨hist', htraced, horderly,
      h.upholds.land hrivals h.traced h.orderly hsound hsound' heffect⟩
  · exact ⟨hist, h.traced.step_of_ne_land hrespects hne, horderly,
      h.upholds.step_of_ne_land hact hne⟩

theorem Governed.displaces {act : Act} (hrespects : act.Respects leading key)
    {old new : Store.Memory.Entry} {d d' : Document} {x y : String}
    (hold : c.memory.entry? key = some old) (hnew : (c.step act).memory.entry? key = some new)
    (hdecode : Document.decode old.data = .ok d) (hdecode' : Document.decode new.data = .ok d')
    (hx : d.broker = some x) (hy : d'.broker = some y) (hne : x ≠ y) :
    c.clock.IsTrulyPast d.brokerHeartbeat timeout ∨ Belated timeout (c.step act) := by
  have hstays (htraced : Traced leading key (c.step act) hist) :
      c.clock.IsTrulyPast d.brokerHeartbeat timeout ∨ Belated timeout (c.step act) := by
    rw [htraced.current, ← h.traced.current, hold] at hnew
    cases hnew
    cases hdecode.symm.trans hdecode'
    exact absurd (Option.some.inj (hx.symm.trans hy)) hne
  rcases act.land_or with ⟨i, rfl⟩ | hne
  · obtain ⟨hist', heffect, htraced⟩ := h.traced.effect i
    cases heffect with
    | idle | read | refused | elsewhere => exact hstays htraced
    | @stored caller failure token memory r hq hkey hdata hdocument hfollows heq =>
      rcases hfollows with rfl | ⟨latest, rest, read, rfl, hread, hmakes⟩
      · rw [h.traced.current] at hold
        cases hold
      have hlatest : latest.entry = old := by
        rw [h.traced.current] at hold
        exact Option.some.inj hold
      have hstored : r.entry = new := by
        rw [show (c.step (.land i)).memory.entry? key = _ from htraced.current] at hnew
        exact Option.some.inj hnew
      obtain ⟨hholds, hfit⟩ := h.traced.holds latest List.mem_cons_self
      obtain ⟨hholds', hfit'⟩ := htraced.holds r List.mem_cons_self
      have hagree := hholds.agree hfit (hlatest ▸ hdecode)
      have hagree' := hholds'.agree hfit' (hstored ▸ hdecode')
      have hhandover : Handover timeout c (c.landed i caller (.ok token) memory) read r.document :=
        handover_of_makes hrivals h.orderly hsound hq hmakes memory
      rw [← heq] at hhandover
      rw [hagree.2]
      refine hhandover.displaces h.upholds ?_ rfl hread ?_ ?_ hne
      · rw [heq]
        exact List.subset_cons_self _ _
      · rw [← hagree.1, hx]
      · rw [← hagree'.1, hy]
  · exact hstays (h.traced.step_of_ne_land hrespects hne)

end Governed

section Runs

variable {engines : Nat → Engine.Options} {brokers : BrokerId → Broker.Options}
  {memory : Store.Memory} {ids : IdSupply} {clock : Millis}

theorem Rivals.run (h : Rivals brokers key timeout) (acts : List Act) :
    Rivals (fun b => (((init engines brokers memory ids clock).run acts).seats b).options) key
      timeout := by
  have hoptions (b : BrokerId) :
      (((init engines brokers memory ids clock).run acts).seats b).options = brokers b :=
    broker_options_eq (options_run (init engines brokers memory ids clock) acts) b
  simp only [hoptions]
  exact h

theorem not_claims_init (b : BrokerId) (x : Claim) :
    ¬ (init engines brokers memory ids clock).Claims b x := by
  intro hx
  cases x with
  | start i =>
    obtain ⟨_, _, _, hq⟩ := hx
    cases hq
  | request p => exact List.not_mem_nil hx.1

theorem orderly_init (hepoch : 0 ≤ clock) : (init engines brokers memory ids clock).Orderly where
  epoch := hepoch
  stood _ _ hmem := absurd hmem List.not_mem_nil
  fresh _ _ hmem := absurd hmem List.not_mem_nil
  lawful _ _ hmem := absurd hmem List.not_mem_nil
  once b x _ hx := absurd hx (not_claims_init b x)
  unclaimed b x _ := not_claims_init b x
  begun _ _ hbegun := by cases hbegun
  procs := List.forall_mem_nil _

theorem upholds_init {hist : List Revision} :
    Upholds timeout (init engines brokers memory ids clock) hist where
  crowned _ _ hmem := absurd hmem List.not_mem_nil
  won _ _ _ _ _ _ hq := by cases hq

theorem governed_run (hrivals : Rivals brokers key timeout)
    (hopening : Opening leading key memory) (hepoch : 0 ≤ clock) {acts : List Act}
    (hled : Led key (init engines brokers memory ids clock) acts) :
    ∃ hist, Governed timeout key ((init engines brokers memory ids clock).run acts) hist := by
  induction acts using List.reverseRecOn with
  | nil =>
    obtain ⟨hist, htraced, -⟩ := traced_init hopening engines brokers ids clock
    exact ⟨hist, htraced, orderly_init hepoch, upholds_init⟩
  | append_singleton acts act ih =>
    obtain ⟨hbefore, ⟨hact, hrespects⟩, -⟩ := led_append.1 hled
    obtain ⟨hist, hgoverned⟩ := ih hbefore
    have hsound' := sound_run engines brokers memory ids clock (acts ++ [act])
    rw [run_append] at hsound' ⊢
    exact hgoverned.step (hrivals.run acts) (sound_run engines brokers memory ids clock acts) hact
      hrespects hsound'

/-- **A leader is displaced only when it is stale**, unless a registration was belated: in every run
of brokers that contend for a document, from 1970 on, and at every step. -/
theorem stale_or_belated_of_displaced (hrivals : Rivals brokers key timeout)
    (hopening : Opening leading key memory) (hepoch : 0 ≤ clock) {acts : List Act} {act : Act}
    (hled : Led key (init engines brokers memory ids clock) (acts ++ [act])) :
    let c := (init engines brokers memory ids clock).run acts
    ∀ (old new : Store.Memory.Entry) (d d' : Document) (x y : String),
      c.memory.entry? key = some old → (c.step act).memory.entry? key = some new →
      Document.decode old.data = .ok d → Document.decode new.data = .ok d' →
      d.broker = some x → d'.broker = some y → x ≠ y →
      c.clock.IsTrulyPast d.brokerHeartbeat timeout ∨ Belated timeout (c.step act) := by
  intro c old new d d' x y hold hnew hdecode hdecode' hx hy hne
  obtain ⟨hbefore, ⟨-, hrespects⟩, -⟩ := led_append.1 hled
  obtain ⟨hist, hgoverned⟩ := governed_run hrivals hopening hepoch hbefore
  exact hgoverned.displaces (hrivals.run acts)
    (sound_run engines brokers memory ids clock acts) hrespects hold hnew hdecode hdecode' hx hy hne

end Runs

/-- Brokers at an empty store, each under an address of its own. -/
def contest : Cluster :=
  init (fun _ => .standard) (fun b => .standard (toString b)) .empty ⟨toString, 0⟩ 0

theorem rivals_contest : Rivals (fun b => .standard (toString b)) "queue.json" 10000 where
  address b b' h := by
    have hdigits : Nat.toDigits 10 b = Nat.toDigits 10 b' := by
      rw [← Nat.toList_repr, ← Nat.toList_repr]
      exact congrArg String.toList h
    rw [← @Nat.ofDigitChars_ten_toDigits b, hdigits, Nat.ofDigitChars_ten_toDigits]
  key _ := rfl
  timeout _ := rfl

/-- A broker takes over after ten seconds of silence. -/
theorem stale_or_belated_contest :
    let acts : List Act := [.startBroker 0, .land 0, .proceed 0, .land 0, .setClock 10001,
      .startBroker 1, .land 1, .proceed 1]
    let c := contest.run acts
    ∃ (old new : Store.Memory.Entry) (d d' : Document),
      c.memory.entry? "queue.json" = some old ∧
      (c.step (.land 1)).memory.entry? "queue.json" = some new ∧
      Document.decode old.data = .ok d ∧ Document.decode new.data = .ok d' ∧
      d.broker = some "0" ∧ d'.broker = some "1" ∧
      (c.clock.IsTrulyPast d.brokerHeartbeat 10000 ∨ Belated 10000 (c.step (.land 1))) := by
  intro acts c
  have hopening : Opening leading "queue.json" .empty := ⟨nofun, nofun⟩
  have hled : Led "queue.json" contest (acts ++ [.land 1]) := by
    simp only [acts, List.cons_append, List.nil_append, Led, Act.IsLed, Act.Respects, and_true,
      true_and]
    decide
  refine ⟨_, _, ⟨some "0", 0, [], 0⟩, ⟨some "1", 10001, [], 0⟩, rfl, rfl, rfl, rfl, rfl, rfl, ?_⟩
  exact stale_or_belated_of_displaced rivals_contest hopening (by decide) hled _ _ _ _ "0" "1" rfl
    rfl rfl rfl rfl rfl (by decide)

/-- A broker is displaced at the very moment it took over: the registration of the broker before it
was sent in time, met with a conflict, and is written anew. -/
theorem displaced_while_fresh_contest :
    let acts : List Act := [.startBroker 0, .land 0, .proceed 0, .land 0, .proceed 0, .land 0,
      .proceed 0, .land 0, .proceed 0, .proceed 1, .proceed 1, .proceed 1, .setClock 10001,
      .startBroker 1, .land 2, .proceed 2, .land 2, .land 1, .proceed 1, .proceed 1, .land 1,
      .proceed 1]
    let c := contest.run acts
    Led "queue.json" contest (acts ++ [.land 1]) ∧
    ∃ (old new : Store.Memory.Entry) (d d' : Document),
      c.memory.entry? "queue.json" = some old ∧
      (c.step (.land 1)).memory.entry? "queue.json" = some new ∧
      Document.decode old.data = .ok d ∧ Document.decode new.data = .ok d' ∧
      d.broker = some "1" ∧ d'.broker = some "0" ∧
      ¬ c.clock.IsTrulyPast d.brokerHeartbeat 10000 := by
  refine ⟨?_, _, _, ⟨some "1", 10001, [], 0⟩, ⟨some "0", 0, [], 0⟩, rfl, rfl, rfl, rfl, rfl, rfl,
    by decide⟩
  simp only [List.cons_append, List.nil_append, Led, Act.IsLed, Act.Respects, and_true, true_and]
  decide

end LeaseQueue.Cluster
