import LeaseQueue.Proofs.Cluster.Tracing
import LeaseQueue.Proofs.Store.Memory

/-!
# Succession

A put comes through only over the object that it expects, and so each document under a key was made
from exactly the one that it replaces:

  `documents.IsChain fun new old => Derived c key old new`

for what is under the key and all that was there before it, in every run.
-/

namespace LeaseQueue.Cluster

variable {R : Recall} {key : String} {c c' : Cluster} {hist hist' : List Revision}

/-! ## Landing -/

/-- The revision that a put would replace is the latest. -/
theorem Traced.latest (h : Traced R key c hist) {r : Revision} (hr : r ∈ hist)
    {expected : Store.Token} (htoken : expected = toString r.entry.version)
    {entry : Store.Memory.Entry} (hentry : c.memory.entry? key = some entry)
    (hversion : Store.Memory.parseVersion? expected = some entry.version) :
    ∃ rest, hist = r :: rest := by
  have hsame : entry.version = r.entry.version :=
    Store.Memory.eq_of_parseVersion? (htoken ▸ hversion)
  obtain ⟨first, rest, rfl⟩ := List.exists_cons_of_ne_nil (List.ne_nil_of_mem hr)
  have hfirst : first.entry = entry := by
    have hcurrent := h.current
    rw [hentry] at hcurrent
    exact (Option.some.inj hcurrent).symm
  rcases List.mem_cons.1 hr with rfl | hold
  · exact ⟨rest, rfl⟩
  · have hlt := (List.pairwise_cons.1 h.falling).1 r hold
    rw [hfirst, hsame] at hlt
    exact absurd hlt (Nat.lt_irrefl _)

theorem Traced.nil_of_none (h : Traced R key c hist) (hnone : c.memory.entry? key = none) :
    hist = [] := by
  have hcurrent := h.current
  rw [hnone] at hcurrent
  cases hist with
  | nil => rfl
  | cons r rest => cases hcurrent

/-- A document that may be stored now: it is the first, or made from the latest. -/
def Follows (R : Recall) (hist : List Revision) (makes : Document → Document → Prop)
    (d : Document) : Prop :=
  hist = [] ∨ ∃ r rest d', hist = r :: rest ∧ R.agree r.document d' ∧ makes d' d

theorem Traced.follows_of_successor (h : Traced R key c hist) {expected : Store.Token}
    {makes : Document → Document → Prop} {d : Document}
    (hsuccessor : Successor R hist expected makes d) {data : Bytes}
    (hadmits : c.memory.Admits (.write key data expected)) : Follows R hist makes d := by
  obtain ⟨d', ⟨r, hr, htoken, hagree, _⟩, hmakes, _⟩ := hsuccessor
  obtain ⟨entry, hentry, hversion⟩ := hadmits
  obtain ⟨rest, rfl⟩ := h.latest hr htoken hentry hversion
  exact .inr ⟨r, rest, d', rfl, hagree, hmakes⟩

theorem Traced.attempt_follows (h : Traced R key c hist) {election : Election}
    {attempt : Election.Attempt .put} (hattempt : AttemptKnown R key c hist election attempt)
    (hkey : election.stateKey = key) (hadmits : c.memory.Admits (attempt.call election)) :
    ∃ d, attemptDocument? attempt = some d ∧
      Store.Memory.payload (attempt.call election) = d.encode ∧ R.fit d ∧
      Follows R hist (Replaces c election) d := by
  cases attempt with
  | founding document =>
    obtain ⟨now, rfl⟩ := hattempt
    exact ⟨_, rfl, rfl, R.fit_registerBroker _ _ R.fit_empty,
      .inl (h.nil_of_none (hkey ▸ hadmits))⟩
  | takingOver document expected =>
    have hsuccessor := hattempt hkey
    refine ⟨document, rfl, rfl, hsuccessor.choose_spec.2.2, ?_⟩
    rw [Election.Attempt.call, hkey] at hadmits
    exact h.follows_of_successor hsuccessor hadmits

/-- What a call stores under the key is the document of its caller, and follows. -/
theorem Traced.put_follows (h : Traced R key c hist) {caller : Caller .put}
    (hcaller : CallerKnown R key c hist caller) (hkey : (c.callOf caller).key = key)
    (hadmits : c.memory.Admits (c.callOf caller)) :
    ∃ d, caller.document? = some d ∧ Store.Memory.payload (c.callOf caller) = d.encode ∧
      R.fit d ∧ Follows R hist (Makes c caller) d := by
  cases caller with
  | start e point =>
    cases point with
    | creating epoch =>
      exact ⟨.empty, rfl, rfl, R.fit_empty, .inl (h.nil_of_none (hkey ▸ hadmits))⟩
  | commit e epoch point =>
    cases point with
    | writing pass document results expected =>
      have hat : (c.engines e).options.stateKey = key := hkey
      have hsuccessor := hcaller.2 hat
      refine ⟨document, rfl, rfl, hsuccessor.choose_spec.2.2, ?_⟩
      rw [callOf, Engine.Commit.call, hat] at hadmits
      exact h.follows_of_successor hsuccessor hadmits
  | election election attempt =>
    refine h.attempt_follows hcaller ?_ hadmits
    cases attempt <;> exact hkey
  | broker b point =>
    cases point with
    | electing now attempt =>
      refine h.attempt_follows hcaller ?_ hadmits
      cases attempt <;> exact hkey
    | opening now point =>
      cases point with
      | creating epoch =>
        exact ⟨.empty, rfl, rfl, R.fit_empty, .inl (h.nil_of_none (hkey ▸ hadmits))⟩
  | client call =>
    cases call with
    | write k data expected => exact absurd hkey hcaller
    | create k data => exact absurd hkey hcaller

theorem Replaces.derived {election : Election} {d d' : Document} (h : Replaces c election d d')
    (hkey : election.stateKey = key) : Derived c key d d' := by
  obtain ⟨now, hstood, rfl, -⟩ := h
  exact .registration election now hkey hstood

theorem Makes.derived {caller : Caller .put} {d d' : Document} (h : Makes c caller d d')
    (hcaller : CallerKnown R key c hist caller) (hkey : (c.callOf caller).key = key) :
    Derived c key d d' := by
  cases caller with
  | start | client => cases h
  | commit e epoch point =>
    cases point with
    | writing pass document results expected =>
      obtain ⟨now, ids, rfl⟩ := h
      exact .pass e pass.batch now ids hkey hcaller.1.2
  | election election attempt => exact Replaces.derived h (by cases attempt <;> exact hkey)
  | broker b point =>
    cases point with
    | electing now attempt => exact Replaces.derived h (by cases attempt <;> exact hkey)
    | opening => cases h

/-- What a put stored under the key. -/
def Event.stored? (key : String) : Event → Option Bytes
  | .landed _ _ (.write k data _) (.ok _) => if k = key then some data else none
  | .landed _ _ (.create k data) (.ok _) => if k = key then some data else none
  | _ => none

/-- What was stored under a key, the latest first. -/
def stored (c : Cluster) (key : String) : List Bytes := c.log.filterMap (Event.stored? key)

theorem mem_procs_landed {i : ProcId} {a : Store.Access} {caller : Caller a}
    {answer : Store.Answer a} {memory : Store.Memory} {q : Proc}
    (hq : q ∈ (c.landed i caller answer memory).procs) :
    q ∈ c.procs ∨ q = .awaiting caller (.landed answer) :=
  List.mem_or_eq_of_mem_set hq

/-- A landing that leaves what is under the key. -/
theorem Traced.landed (h : Traced R key c hist) {i : ProcId} {a : Store.Access}
    {caller : Caller a} (hcaller : CallerKnown R key c hist caller) {answer : Store.Answer a}
    {memory : Store.Memory} (hcurrent : memory.entry? key = c.memory.entry? key)
    (hlast : c.memory.lastVersion ≤ memory.lastVersion)
    (hbrings : Brings key hist caller.document? (c.callOf caller) answer) :
    Traced R key (c.landed i caller answer memory) hist := by
  refine h.mono rfl hcurrent hlast (List.subset_cons_self _ _) (fun _ => .inl rfl) fun q hq => ?_
  rcases mem_procs_landed hq with hold | rfl
  · exact .inl hold
  · exact .inr ⟨hcaller.mono (List.subset_cons_self _ _) rfl fun _ => id, hbrings⟩

/-- A landing that stores a document under the key. -/
theorem Traced.landed_put (h : Traced R key c hist) {i : ProcId} {caller : Caller .put}
    (hcaller : CallerKnown R key c hist caller) (hkey : (c.callOf caller).key = key)
    (hadmits : c.memory.Admits (c.callOf caller)) :
    ∃ r : Revision, r.entry.data = Store.Memory.payload (c.callOf caller) ∧
      caller.document? = some r.document ∧ Follows R hist (Makes c caller) r.document ∧
      Traced R key (c.landed i caller
        (c.memory.store key (Store.Memory.payload (c.callOf caller))).1
        (c.memory.store key (Store.Memory.payload (c.callOf caller))).2) (r :: hist) := by
  obtain ⟨d, hdocument, hpayload, hfit, hfollows⟩ := h.put_follows hcaller hkey hadmits
  let data := Store.Memory.payload (c.callOf caller)
  let r : Revision := ⟨⟨data, c.memory.lastVersion + 1⟩, d⟩
  have hlog : c.log ⊆ (c.landed i caller (c.memory.store key data).1
    (c.memory.store key data).2).log := List.subset_cons_self _ _
  have hhist : hist ⊆ r :: hist := List.subset_cons_self _ _
  have hin : ∃ r' ∈ r :: hist, toString (c.memory.lastVersion + 1) = toString r'.entry.version ∧
      r'.document = d := ⟨r, List.mem_cons_self, rfl, rfl⟩
  refine ⟨r, rfl, hdocument, hfollows, ?_⟩
  exact {
    outfitted := h.outfitted
    current := by
      refine (Store.Memory.entry?_store c.memory key data key).trans ?_
      rw [if_pos rfl]
      rfl
    falling := List.pairwise_cons.2
      ⟨fun old hold => Nat.lt_succ_of_le (h.bounded old hold), h.falling⟩
    bounded := List.forall_mem_cons.2
      ⟨Nat.le_refl _, fun old hold => Nat.le_succ_of_le (h.bounded old hold)⟩
    holds := List.forall_mem_cons.2 ⟨⟨.inl hpayload, hfit⟩, h.holds⟩
    chain := by
      have hchain := h.chain.imp fun _ _ hstep => Succeeds.mono hstep hlog rfl
      rcases hfollows with rfl | ⟨old, rest, d', rfl, hagree, hmakes⟩
      · exact .singleton r
      · exact .cons_cons ⟨d', hagree, (hmakes.derived hcaller hkey).mono hlog rfl⟩ hchain
    engines := fun e => (h.engines e).mono hhist
    procs := by
      intro q hq
      rcases mem_procs_landed hq with hold | rfl
      · exact (h.procs q hold).mono hlog rfl hhist
      · refine ⟨hcaller.mono hlog rfl hhist, ?_⟩
        show Brings key (r :: hist) caller.document? (c.callOf caller) _
        rw [hdocument]
        cases hcall : c.callOf caller with
        | write k data' expected | create k data' =>
          intro _ token htoken d₀ hd₀
          cases hd₀
          cases htoken
          exact hin }

theorem stored_eq_landings :
    c.stored key = c.background.landings.filterMap (Event.stored? key) := by
  have hnone (event : Event) (h : event.isLanding = false) : Event.stored? key event = none := by
    cases event with
    | landed => cases h
    | _ => rfl
  simp only [stored, background]
  induction c.log with
  | nil => rfl
  | cons event log ih =>
    cases hevent : event.isLanding with
    | true => rw [List.filter_cons_of_pos hevent, List.filterMap_cons, List.filterMap_cons, ih]
    | false =>
      rw [List.filter_cons_of_neg (by simp [hevent]), List.filterMap_cons_none (hnone event hevent),
        ih]

theorem stored_of_background (h : c'.background = c.background) :
    c'.stored key = c.stored key := by
  rw [stored_eq_landings, stored_eq_landings, h]

/-- What a landing does to the revisions under the key. -/
inductive Effect (R : Recall) (key : String) (c : Cluster) (hist : List Revision) (i : ProcId) :
    List Revision → Prop where
  | idle (heq : c.land i = c) : Effect R key c hist i hist
  | read {caller : Caller .read} {failure : Option Store.Error} {answer : Store.Answer .read}
    (hq : c.procs[i]? = some (.awaiting caller (.sent failure)))
    (heq : c.land i = c.landed i caller answer c.memory)
    (hlatest : (c.callOf caller).key = key → ∀ object, answer = .ok (some object) →
      ∃ r rest, hist = r :: rest ∧ object = r.entry.toObject) : Effect R key c hist i hist
  | refused {caller : Caller .put} {failure : Option Store.Error} {cause : Store.Error}
    (hq : c.procs[i]? = some (.awaiting caller (.sent failure)))
    (heq : c.land i = c.landed i caller (.error cause) c.memory) : Effect R key c hist i hist
  | elsewhere {caller : Caller .put} {failure : Option Store.Error} {token : Store.Token}
    {memory : Store.Memory} (hq : c.procs[i]? = some (.awaiting caller (.sent failure)))
    (hkey : (c.callOf caller).key ≠ key)
    (heq : c.land i = c.landed i caller (.ok token) memory) : Effect R key c hist i hist
  | stored {caller : Caller .put} {failure : Option Store.Error} {token : Store.Token}
    {memory : Store.Memory} (r : Revision)
    (hq : c.procs[i]? = some (.awaiting caller (.sent failure)))
    (hkey : (c.callOf caller).key = key)
    (hdata : r.entry.data = Store.Memory.payload (c.callOf caller))
    (hdocument : caller.document? = some r.document)
    (hfollows : Follows R hist (Makes c caller) r.document)
    (heq : c.land i = c.landed i caller (.ok token) memory) : Effect R key c hist i (r :: hist)

/-- Whatever a call does, the revisions under the key stay, and a new one is put before them. -/
theorem Traced.effect (h : Traced R key c hist) (i : ProcId) :
    ∃ hist', Effect R key c hist i hist' ∧ Traced R key (c.land i) hist' := by
  rcases land_cases c i with heq | ⟨a, caller, failure, hq, heq⟩
  · exact ⟨hist, .idle heq, heq.symm ▸ h⟩
  have hcaller : CallerKnown R key c hist caller := h.procs _ (List.mem_of_getElem? hq)
  cases a with
  | read =>
    obtain ⟨k, hcall⟩ : ∃ k, c.callOf caller = .read k := by
      cases c.callOf caller with
      | read k => exact ⟨k, rfl⟩
    obtain ⟨hmemory, hread⟩ := Store.Memory.finish_read c.memory k failure
    rw [hcall, hmemory] at heq
    have hlatest (hkey : k = key) (object : Store.Object)
        (hobject : (c.memory.finish ⟨.read k, failure⟩).1 = .ok (some object)) :
        ∃ r rest, hist = r :: rest ∧ object = r.entry.toObject := by
      obtain ⟨entry, hentry, rfl⟩ := hread object hobject
      rw [hkey, h.current] at hentry
      cases hist with
      | nil => cases hentry
      | cons r rest =>
        cases hentry
        exact ⟨r, rest, rfl, rfl⟩
    refine ⟨hist, .read hq heq (by rw [hcall]; exact hlatest), heq.symm ▸ ?_⟩
    refine h.landed hcaller rfl (Nat.le_refl _) ?_
    rw [hcall]
    intro hkey object hobject
    obtain ⟨r, rest, rfl, hentry⟩ := hlatest hkey object hobject
    exact ⟨r, List.mem_cons_self, hentry⟩
  | put =>
    rcases Store.Memory.finish_put c.memory (c.callOf caller) failure with
      ⟨cause, hfinish⟩ | ⟨hadmits, hfinish⟩
    · rw [hfinish] at heq
      refine ⟨hist, .refused hq heq, heq.symm ▸ h.landed hcaller rfl (Nat.le_refl _) ?_⟩
      cases c.callOf caller <;> exact nofun
    · rw [hfinish] at heq
      by_cases hkey : (c.callOf caller).key = key
      · obtain ⟨r, hdata, hdocument, hfollows, htraced⟩ :=
          h.landed_put (i := i) hcaller hkey hadmits
        rw [hkey] at heq
        exact ⟨r :: hist, .stored r hq hkey hdata hdocument hfollows heq, heq.symm ▸ htraced⟩
      · refine ⟨hist, .elsewhere hq hkey heq, heq.symm ▸ h.landed hcaller ?_ (Nat.le_succ _) ?_⟩
        · rw [Store.Memory.entry?_store, if_neg (Ne.symm hkey)]
        · revert hkey
          cases c.callOf caller <;> exact fun hkey hk => absurd hk hkey

theorem stored_landed {i : ProcId} {a : Store.Access} {caller : Caller a}
    {answer : Store.Answer a} {memory : Store.Memory} (data : Option Bytes)
    (h : Event.stored? key (.landed c.clock caller (c.callOf caller) answer) = data) :
    (c.landed i caller answer memory).stored key = data.toList ++ c.stored key := by
  cases data with
  | none => exact List.filterMap_cons_none h
  | some data => exact List.filterMap_cons_some h

theorem Effect.stored_eq {i : ProcId} (h : Effect R key c hist i hist') :
    ∃ new : List Revision, hist' = new ++ hist ∧
      (c.land i).stored key = new.map (·.entry.data) ++ c.stored key := by
  cases h with
  | idle heq => exact ⟨[], rfl, by rw [heq]; rfl⟩
  | @read caller failure answer hq heq hlatest =>
    refine ⟨[], rfl, heq ▸ stored_landed none ?_⟩
    cases c.callOf caller
    rfl
  | @refused caller failure cause hq heq =>
    refine ⟨[], rfl, heq ▸ stored_landed none ?_⟩
    cases c.callOf caller <;> rfl
  | @elsewhere caller failure token memory hq hkey heq =>
    refine ⟨[], rfl, heq ▸ stored_landed none ?_⟩
    revert hkey
    cases c.callOf caller <;> exact fun hkey => if_neg hkey
  | @stored caller failure token memory r hq hkey hdata hdocument hfollows heq =>
    refine ⟨[r], rfl, heq ▸ stored_landed (some r.entry.data) ?_⟩
    revert hkey hdata
    cases c.callOf caller <;>
    · rintro rfl hdata
      exact (if_pos rfl).trans (congrArg some hdata.symm)

theorem Traced.land (h : Traced R key c hist) (i : ProcId) :
    ∃ new : List Revision, Traced R key (c.land i) (new ++ hist) ∧
      (c.land i).stored key = new.map (·.entry.data) ++ c.stored key := by
  obtain ⟨hist', heffect, htraced⟩ := h.effect i
  obtain ⟨new, rfl, hstored⟩ := heffect.stored_eq
  exact ⟨new, htraced, hstored⟩

/-! ## Runs -/

/-- Others than engines and elections stay away from the key, and what is submitted is fit. -/
def Act.Respects (R : Recall) (key : String) : Act → Prop
  | .submit _ m => R.fits m
  | .call c => Spares key c
  | _ => True

/-- Only landings make history. -/
theorem Traced.step_of_ne_land (h : Traced R key c hist) {act : Act} (hact : act.Respects R key)
    (hland : ∀ i, act ≠ .land i) : Traced R key (c.step act) hist := by
  cases act with
  | setClock clock =>
    exact h.mono rfl rfl (Nat.le_refl _) (fun _ => id) (fun _ => .inl rfl) fun _ hq => .inl hq
  | setMemory options =>
    exact h.mono rfl rfl (Nat.le_refl _) (fun _ => id) (fun _ => .inl rfl) fun _ hq => .inl hq
  | submit e m =>
    rw [Cluster.step]
    split
    · exact h.submit hact
    · exact h
  | startEngine e =>
    rw [Cluster.step]
    split
    · have hspawn := h.spawn (q := .ended) trivial
      exact hspawn.followStart (Engine.start_keeps _).options (start_informed (h.engines e))
    · exact h
  | stopEngine e =>
    rw [Cluster.step]
    split
    · exact h.stopEngine
    · exact h
  | elect election now =>
    exact (h.record (.stood election now) rfl).begin (.election election (.looking now))
      List.mem_cons_self
  | call call => exact h.begin (.client call) hact
  | startBroker b =>
    rw [Cluster.step, Cluster.startBroker]
    split
    · have hstood := (h.setReign (b := b) .starting).record
        (.stood (c.seats b).options.election c.clock) rfl
      have hoptions := broker_options_eq (options_setReign c b .starting) b
      refine hstood.begin (.broker b (Broker.begin c.clock)) ?_
      show Event.stood ((c.setReign b .starting).seats b).options.election c.clock ∈ _
      rw [hoptions]
      exact List.mem_cons_self
    · exact h
  | beat b own =>
    rw [Cluster.step, Cluster.beat]
    split
    · exact h.begin (.beat b own) trivial
    · exact h
  | stopBroker b => exact h.stopBroker
  | land i => exact absurd rfl (hland i)
  | proceed i => exact h.proceed i

theorem Traced.step (h : Traced R key c hist) {act : Act} (hact : act.Respects R key) :
    ∃ new : List Revision, Traced R key (c.step act) (new ++ hist) ∧
      (c.step act).stored key = new.map (·.entry.data) ++ c.stored key := by
  rcases act.land_or with ⟨i, rfl⟩ | hne
  · exact h.land i
  · exact ⟨[], h.step_of_ne_land hact hne, stored_of_background (background_step c act hne)⟩

theorem Traced.run (h : Traced R key c hist) {acts : List Act}
    (hacts : ∀ act ∈ acts, act.Respects R key) :
    ∃ new : List Revision, Traced R key (c.run acts) (new ++ hist) ∧
      (c.run acts).stored key = new.map (·.entry.data) ++ c.stored key := by
  induction acts generalizing c hist with
  | nil => exact ⟨[], h, rfl⟩
  | cons act acts ih =>
    obtain ⟨hact, hrest⟩ := List.forall_mem_cons.1 hacts
    obtain ⟨new, hstep, hstored⟩ := h.step hact
    obtain ⟨newer, hrun, hmore⟩ := ih hstep hrest
    refine ⟨newer ++ new, ?_, ?_⟩
    · rw [List.append_assoc]
      exact hrun
    · rw [List.map_append, List.append_assoc, ← hstored]
      exact hmore

/-- A store holds a readable document under the key, or none. -/
structure Opening (R : Recall) (key : String) (memory : Store.Memory) : Prop where
  bounded : ∀ e, memory.entry? key = some e → e.version ≤ memory.lastVersion
  readable : ∀ e, memory.entry? key = some e → ∃ d, Document.decode e.data = .ok d ∧ R.fit d

theorem traced_init {memory : Store.Memory} (h : Opening R key memory)
    (engines : Nat → Engine.Options) (brokers : BrokerId → Broker.Options) (ids : IdSupply)
    (clock : Millis) :
    ∃ hist, Traced R key (init engines brokers memory ids clock) hist ∧
      hist.map (·.entry) = (memory.entry? key).toList := by
  have hinformed (hist : List Revision) (e : EngineId) :
      Informed R key hist ((init engines brokers memory ids clock).engines e) := by
    cases e <;> exact .of_uncached rfl (List.forall_mem_nil _)
  cases hentry : memory.entry? key with
  | none =>
    refine ⟨[], ?_, rfl⟩
    exact {
      outfitted := fun b => rfl
      current := hentry
      falling := .nil
      bounded := List.forall_mem_nil _
      holds := List.forall_mem_nil _
      chain := .nil
      engines := hinformed []
      procs := List.forall_mem_nil _ }
  | some e =>
    obtain ⟨d, hdecode, hfit⟩ := h.readable e hentry
    refine ⟨[⟨e, d⟩], ?_, rfl⟩
    exact {
      outfitted := fun b => rfl
      current := hentry
      falling := List.pairwise_singleton _ _
      bounded := List.forall_mem_singleton.2 (h.bounded e hentry)
      holds := List.forall_mem_singleton.2 ⟨.inr hdecode, hfit⟩
      chain := .singleton _
      engines := hinformed _
      procs := List.forall_mem_nil _ }

/-- Documents whose payloads have no numbers but integers are got back as they are. -/
def wholly : Recall where
  fit := Document.HasPayloads
  fits := Mutation.HasPayloads
  agree := Eq
  refl _ := rfl
  decode hfit hdecode := (Document.eq_of_decode_encode hfit hdecode).symm
  fit_of_agree hfit hagree := hagree ▸ hfit
  fit_empty := nofun
  fit_registerBroker _ _ hfit := hfit
  fits_registerBroker _ _ := trivial
  fits_renewBroker _ _ := trivial
  fit_pass now timeout ids hfit hfits := hfit.pass hfits now timeout ids

/-- **No update is lost**: every document under the key was made from the one that it replaced, in
every run of engines, elections and brokers at one store. -/
theorem stored_chain (engines : Nat → Engine.Options) (brokers : BrokerId → Broker.Options)
    (memory : Store.Memory) (ids : IdSupply) (clock : Millis) (key : String) (acts : List Act)
    (hopening : Opening wholly key memory) (hacts : ∀ act ∈ acts, act.Respects wholly key) :
    let c := (init engines brokers memory ids clock).run acts
    let contents := c.stored key ++ ((memory.entry? key).map (·.data)).toList
    (c.memory.entry? key).map (·.data) = contents.head? ∧
    ∃ documents : List Document, List.Forall₂ Holds contents documents ∧
      documents.IsChain fun new old => Derived c key old new := by
  intro c contents
  obtain ⟨hist, hinit, hentries⟩ := traced_init hopening engines brokers ids clock
  obtain ⟨new, htraced, hstored⟩ := hinit.run hacts
  have hcontents : contents = (new ++ hist).map (·.entry.data) := by
    have hdata : hist.map (·.entry.data) = ((memory.entry? key).map (·.data)).toList := by
      have hmap : hist.map (·.entry.data) = (hist.map (·.entry)).map (·.data) :=
        List.map_map.symm
      rw [hmap, hentries]
      cases memory.entry? key <;> rfl
    have hnone : (init engines brokers memory ids clock).stored key = [] := rfl
    rw [List.map_append, hdata]
    exact congrArg (· ++ _) (hstored.trans (by rw [hnone, List.append_nil]))
  rw [hcontents]
  refine ⟨?_, (new ++ hist).map (·.document), ?_, ?_⟩
  · have hcurrent : c.memory.entry? key = _ := htraced.current
    rw [hcurrent, ← List.head?_map, List.map_map]
    rfl
  · rw [List.forall₂_map_left_iff, List.forall₂_map_right_iff, List.forall₂_same]
    exact fun r hr => (htraced.holds r hr).1
  · rw [List.isChain_map]
    refine htraced.chain.imp fun new old hstep => ?_
    obtain ⟨d, hagree, hderived⟩ := hstep
    exact hagree ▸ hderived

/-- A job with a number in its payload. -/
def task (n : Int) : JobSpec := ⟨.obj [("n", .num (.int n))], none, none⟩

theorem isPayload_task {n : Int} (hlow : -0x8000000000000000 ≤ n) (hhigh : n < UInt64.size) :
    (task n).payload.IsPayload :=
  ⟨.obj (List.forall_mem_singleton.2 (.int hlow hhigh)), rfl⟩

/-- What a broker left behind that has been silent since 1970: itself in charge, and a job. -/
def estate : Document := (Document.withBroker "old" 0).enqueue [task 1] ["first"] 0

def inherited : Store.Memory :=
  ⟨[("queue", ⟨estate.encode, 1⟩)], 1, ⟨0, none⟩, 0, 0, 0⟩

theorem opening_inherited : Opening wholly "queue" inherited := by
  have hpayloads : estate.HasPayloads :=
    List.forall_mem_singleton.2 (isPayload_task (by decide) (by decide))
  have hentry : inherited.entry? "queue" = some ⟨estate.encode, 1⟩ := rfl
  constructor
  · rintro e he
    cases hentry.symm.trans he
    exact Nat.le_refl 1
  · rintro e he
    cases hentry.symm.trans he
    refine ⟨estate, ?_, hpayloads⟩
    rw [Document.decode_encode hpayloads, if_pos]
    decide

/-- An engine is about to write a new job when a takeover comes first: it meets with a conflict,
reads what is there now, and writes anew. -/
def overtaken : List Act :=
  [.startEngine (.lone 0), .land 0, .proceed 0, .land 0, .proceed 0,
    .submit (.lone 0) (.enqueue [task 2]), .proceed 1, .proceed 1, .proceed 1,
    .elect ⟨"new", "queue", 10000⟩ 10001, .land 2, .proceed 2, .land 2, .land 1, .proceed 1,
    .proceed 1, .land 1, .proceed 1, .land 1]

theorem respects_overtaken : ∀ act ∈ overtaken, act.Respects wholly "queue" := by
  have hpayload : (task 2).payload.IsPayload := isPayload_task (by decide) (by decide)
  simpa [overtaken, Act.Respects, wholly, Mutation.HasPayloads] using hpayload

/-- Of three documents, one comes from a takeover, and one from the engine that it overtook. -/
theorem stored_chain_overtaken :
    (Opening wholly "queue" inherited ∧ ∀ act ∈ overtaken, act.Respects wholly "queue") ∧
    let c := (init (fun _ => ⟨"queue", 50, 30000, 50, 5⟩) (fun b => .standard (toString b))
      inherited ⟨toString, 0⟩ 0).run overtaken
    let contents := c.stored "queue" ++ ((inherited.entry? "queue").map (·.data)).toList
    contents.length = 3 ∧ (c.memory.entry? "queue").map (·.data) = contents.head? ∧
    ∃ documents : List Document, List.Forall₂ Holds contents documents ∧
      documents.IsChain fun new old => Derived c "queue" old new := by
  refine ⟨⟨opening_inherited, respects_overtaken⟩, ?_, ?_⟩
  · decide +kernel
  · exact stored_chain _ _ inherited _ _ "queue" overtaken opening_inherited respects_overtaken

end LeaseQueue.Cluster
