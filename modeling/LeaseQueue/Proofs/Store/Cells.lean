import LeaseQueue.Store.Basic
import Mathlib.Data.Option.Defs
import Mathlib.Logic.Equiv.Fintype

/-!
# What a server does with one object

For somebody who only calls for one key, a server is a cell: it holds an object or none, and it has
issued tokens, a new one for each put (`Cell.Step`).  Nobody makes up tokens, so a write expects one
that came of an earlier call.  Two servers that keep cells then answer alike, call by call, but for
the tokens:

  `server'.session key demands s' [] = (server.session key demands s []).map (Outcome.rename ρ)`
-/

namespace LeaseQueue.Store

/-- Answers calls in a state. -/
structure Server (σ : Type) where
  answer {a : Access} : σ → Call a → Answer a × σ

/-! ## Sessions -/

/-- What somebody wants.  A write expects the token that came of an earlier call, by its number. -/
inductive Demand where
  | read
  | create (data : Bytes)
  | write (data : Bytes) (source : Nat)
deriving DecidableEq, Repr

abbrev Outcome := Sigma Answer

def Outcome.token? : Outcome → Option Token
  | ⟨.read, .ok (some object)⟩ => some object.token
  | ⟨.put, .ok token⟩ => some token
  | _ => none

def Outcome.rename (ρ : Token → Token) : Outcome → Outcome
  | ⟨.read, answer⟩ => ⟨.read, answer.map fun found => found.map fun o => ⟨o.data, ρ o.token⟩⟩
  | ⟨.put, answer⟩ => ⟨.put, answer.map ρ⟩

/-- The call that is made after these outcomes; there is none where the token is missing. -/
def Demand.call? (key : String) (history : List Outcome) : Demand → Option (Sigma Call)
  | .read => some ⟨_, .read key⟩
  | .create data => some ⟨_, .create key data⟩
  | .write data source =>
    (history[source]?.bind Outcome.token?).map fun token => ⟨_, .write key data token⟩

/-- The outcomes of all calls, the first one first. -/
def Server.session {σ : Type} (server : Server σ) (key : String) :
    List Demand → σ → List Outcome → List Outcome
  | [], _, history => history
  | demand :: demands, s, history =>
    match demand.call? key history with
    | none => server.session key demands s history
    | some ⟨_, call⟩ =>
      let (answer, s) := server.answer s call
      server.session key demands s (history ++ [⟨_, answer⟩])

/-! ## Cells -/

/-- An object or none, and all tokens that were issued, the latest first. -/
structure Cell where
  object : Option Object
  issued : List Token
  distinct : issued.Nodup
  known : ∀ o ∈ object, o.token ∈ issued

namespace Cell

def empty : Cell := ⟨none, [], List.nodup_nil, nofun⟩

def store (c : Cell) (data : Bytes) (token : Token) (hfresh : token ∉ c.issued) : Cell where
  object := some ⟨data, token⟩
  issued := token :: c.issued
  distinct := List.nodup_cons.2 ⟨hfresh, c.distinct⟩
  known o ho := by
    obtain rfl := Option.mem_some_iff.1 ho
    exact List.mem_cons_self

/-- What a cell answers to a call, and what becomes of it. -/
inductive Step (c : Cell) : {a : Access} → Call a → Answer a → Cell → Prop where
  | missing {key : String} (hnone : c.object = none) : Step c (.read key) (.ok none) c
  | found {key : String} {o : Object} (hsome : c.object = some o) :
    Step c (.read key) (.ok (some o)) c
  | taken {key : String} {data : Bytes} {o : Object} (hsome : c.object = some o) :
    Step c (.create key data) (.error (.conflict key)) c
  | created {key : String} {data : Bytes} {token : Token} (hnone : c.object = none)
    (hfresh : token ∉ c.issued) :
    Step c (.create key data) (.ok token) (c.store data token hfresh)
  | refused {key : String} {data : Bytes} {expected : Token}
    (hdiffers : ∀ o ∈ c.object, o.token ≠ expected) :
    Step c (.write key data expected) (.error (.conflict key)) c
  | replaced {key : String} {data : Bytes} {token : Token} {o : Object}
    (hsome : c.object = some o) (hfresh : token ∉ c.issued) :
    Step c (.write key data o.token) (.ok token) (c.store data token hfresh)

end Cell

def Call.expected? {a : Access} : Call a → Option Token
  | .write _ _ expected => some expected
  | .read _ | .create _ _ => none

/-- Under the key the server is a cell, as long as nobody makes up a token, and until so many have
been issued. -/
def Server.Keeps {σ : Type} (server : Server σ) (key : String) (limit : Nat)
    (R : σ → Cell → Prop) : Prop :=
  ∀ (s : σ) (c : Cell) (a : Access) (call : Call a), R s c → c.issued.length < limit →
    call.key = key → (∀ token ∈ call.expected?, token ∈ c.issued) →
    ∃ c', c.Step call (server.answer s call).1 c' ∧ R (server.answer s call).2 c'

/-! ## Two cells -/

/-- The tokens were issued at the same put. -/
def Cell.Twins (c c' : Cell) (token token' : Token) : Prop :=
  ∃ n : Nat, c.issued[n]? = some token ∧ c'.issued[n]? = some token'

/-- The cells are the same but for the tokens. -/
structure Cell.Alike (c c' : Cell) : Prop where
  issued : c.issued.length = c'.issued.length
  object : Option.Rel (fun o o' => o.data = o'.data ∧ c.Twins c' o.token o'.token)
    c.object c'.object

/-- The calls are the same but for the tokens. -/
inductive Call.Alike (R : Token → Token → Prop) : {a : Access} → Call a → Call a → Prop where
  | read (key : String) : Alike R (.read key) (.read key)
  | create (key : String) (data : Bytes) : Alike R (.create key data) (.create key data)
  | write (key : String) (data : Bytes) {token token' : Token} (h : R token token') :
    Alike R (.write key data token) (.write key data token')

/-- The outcomes are the same but for the tokens. -/
inductive Outcome.Alike (R : Token → Token → Prop) : Outcome → Outcome → Prop where
  | missing : Alike R ⟨.read, .ok none⟩ ⟨.read, .ok none⟩
  | found (data : Bytes) {token token' : Token} (h : R token token') :
    Alike R ⟨.read, .ok (some ⟨data, token⟩)⟩ ⟨.read, .ok (some ⟨data, token'⟩)⟩
  | stored {token token' : Token} (h : R token token') :
    Alike R ⟨.put, .ok token⟩ ⟨.put, .ok token'⟩
  | refused (key : String) :
    Alike R ⟨.put, .error (.conflict key)⟩ ⟨.put, .error (.conflict key)⟩

variable {c c' d d' : Cell} {t t' u u' : Token} {R S : Token → Token → Prop}

/-! ## Tokens -/

namespace Cell

theorem Twins.mem (h : c.Twins c' t t') : t ∈ c.issued ∧ t' ∈ c'.issued := by
  obtain ⟨n, ht, ht'⟩ := h
  exact ⟨List.mem_of_getElem? ht, List.mem_of_getElem? ht'⟩

theorem Twins.unique (h : c.Twins c' t t') (h' : c.Twins c' u u') : t = u ↔ t' = u' := by
  obtain ⟨n, ht, ht'⟩ := h
  obtain ⟨k, hu, hu'⟩ := h'
  obtain ⟨hn, -⟩ := List.getElem?_eq_some_iff.1 ht
  obtain ⟨hn', -⟩ := List.getElem?_eq_some_iff.1 ht'
  constructor
  · rintro rfl
    obtain rfl := (List.getElem?_inj hn c.distinct).1 (ht.trans hu.symm)
    exact Option.some.inj (ht'.symm.trans hu')
  · rintro rfl
    obtain rfl := (List.getElem?_inj hn' c'.distinct).1 (ht'.trans hu'.symm)
    exact Option.some.inj (ht.symm.trans hu)

theorem Twins.store {data data' : Bytes} (h : c.Twins c' t t') (hu : u ∉ c.issued)
    (hu' : u' ∉ c'.issued) : (c.store data u hu).Twins (c'.store data' u' hu') t t' := by
  obtain ⟨n, ht, ht'⟩ := h
  exact ⟨n + 1, ht, ht'⟩

theorem alike_empty : empty.Alike empty := ⟨rfl, .none⟩

theorem Alike.store (h : c.Alike c') (data : Bytes) (ht : t ∉ c.issued) (ht' : t' ∉ c'.issued) :
    (c.store data t ht).Alike (c'.store data t' ht') where
  issued := congrArg (· + 1) h.issued
  object := .some ⟨rfl, 0, rfl, rfl⟩

/-- What was issued together can be renamed into each other. -/
theorem Alike.exists_perm (h : c.Alike c') :
    ∃ ρ : Equiv.Perm Token, ∀ t t', c.Twins c' t t' → ρ t = t' := by
  obtain ⟨ρ, hρ⟩ := Equiv.Perm.exists_extending_pair c.issued.get
    (c'.issued.get ∘ Fin.cast h.issued) (List.nodup_iff_injective_get.1 c.distinct)
    ((List.nodup_iff_injective_get.1 c'.distinct).comp (Fin.cast_injective _))
  refine ⟨ρ, fun t t' htwins => ?_⟩
  obtain ⟨n, ht, ht'⟩ := htwins
  obtain ⟨hn, rfl⟩ := List.getElem?_eq_some_iff.1 ht
  obtain ⟨hn', rfl⟩ := List.getElem?_eq_some_iff.1 ht'
  exact hρ ⟨n, hn⟩

/-! ## Calls -/

theorem Alike.object_iff (h : c.Alike c') : c.object = none ↔ c'.object = none := by
  have hobject := h.object
  generalize c.object = object, c'.object = object' at hobject
  cases hobject with
  | none => exact iff_of_true rfl rfl
  | some => exact iff_of_false nofun nofun

theorem Alike.of_some (h : c.Alike c') {o o' : Object} (ho : c.object = some o)
    (ho' : c'.object = some o') : o.data = o'.data ∧ c.Twins c' o.token o'.token := by
  have hobject := h.object
  rw [ho, ho'] at hobject
  cases hobject with
  | some h => exact h

/-- Whether a token is that of the object is the same for both. -/
theorem Alike.token_iff (h : c.Alike c') (htwins : c.Twins c' t t') :
    (∃ o, c.object = some o ∧ o.token = t) ↔ ∃ o', c'.object = some o' ∧ o'.token = t' := by
  constructor
  · rintro ⟨o, ho, rfl⟩
    cases ho' : c'.object with
    | none => cases ho.symm.trans (h.object_iff.2 ho')
    | some o' => exact ⟨o', rfl, ((h.of_some ho ho').2.unique htwins).1 rfl⟩
  · rintro ⟨o', ho', rfl⟩
    cases ho : c.object with
    | none => cases ho'.symm.trans (h.object_iff.1 ho)
    | some o => exact ⟨o, rfl, ((h.of_some ho ho').2.unique htwins).2 rfl⟩

/-- **Cells that are alike answer alike.** -/
theorem Alike.step (h : c.Alike c') {a : Access} {call call' : Call a} {answer answer' : Answer a}
    (hcalls : call.Alike (c.Twins c') call') (hstep : c.Step call answer d)
    (hstep' : c'.Step call' answer' d') :
    d.Alike d' ∧ Outcome.Alike (d.Twins d') ⟨a, answer⟩ ⟨a, answer'⟩ ∧
      ∀ t t', c.Twins c' t t' → d.Twins d' t t' := by
  cases hcalls with
  | read key =>
    cases hstep with
    | missing hnone =>
      cases hstep' with
      | missing hnone' => exact ⟨h, .missing, fun _ _ => id⟩
      | found hsome' => cases hsome'.symm.trans (h.object_iff.1 hnone)
    | @found _ o hsome =>
      cases hstep' with
      | missing hnone' => cases hsome.symm.trans (h.object_iff.2 hnone')
      | @found _ o' hsome' =>
        obtain ⟨data, token⟩ := o
        obtain ⟨rfl, htwins⟩ := h.of_some hsome hsome'
        exact ⟨h, .found _ htwins, fun _ _ => id⟩
  | create key data =>
    cases hstep with
    | taken hsome =>
      cases hstep' with
      | taken hsome' => exact ⟨h, .refused key, fun _ _ => id⟩
      | created hnone' => cases hsome.symm.trans (h.object_iff.2 hnone')
    | created hnone hfresh =>
      cases hstep' with
      | taken hsome' => cases hsome'.symm.trans (h.object_iff.1 hnone)
      | created hnone' hfresh' =>
        exact ⟨h.store data hfresh hfresh', .stored ⟨0, rfl, rfl⟩, fun _ _ htwins =>
          htwins.store hfresh hfresh'⟩
  | write key data htwins =>
    cases hstep with
    | refused hdiffers =>
      cases hstep' with
      | refused => exact ⟨h, .refused key, fun _ _ => id⟩
      | @replaced _ _ _ o' hsome' =>
        obtain ⟨o, hsome, htoken⟩ := (h.token_iff htwins).2 ⟨o', hsome', rfl⟩
        exact absurd htoken (hdiffers o hsome)
    | @replaced _ _ _ o hsome hfresh =>
      cases hstep' with
      | refused hdiffers' =>
        obtain ⟨o', hsome', htoken⟩ := (h.token_iff htwins).1 ⟨o, hsome, rfl⟩
        exact absurd htoken (hdiffers' o' hsome')
      | replaced hsome' hfresh' =>
        exact ⟨h.store data hfresh hfresh', .stored ⟨0, rfl, rfl⟩, fun _ _ htwins =>
          htwins.store hfresh hfresh'⟩

theorem Step.length_issued {a : Access} {call : Call a} {answer : Answer a}
    (h : c.Step call answer d) : d.issued.length ≤ c.issued.length + 1 := by
  cases h with
  | missing | found | taken | refused => exact Nat.le_succ _
  | created | replaced => exact Nat.le_refl _

end Cell

/-! ## Sessions of servers that keep cells -/

theorem Outcome.Alike.imp {o o' : Outcome} (h : o.Alike R o') (himp : ∀ t t', R t t' → S t t') :
    o.Alike S o' := by
  cases h with
  | missing => exact .missing
  | found data h => exact .found data (himp _ _ h)
  | stored h => exact .stored (himp _ _ h)
  | refused key => exact .refused key

theorem Outcome.Alike.token? {o o' : Outcome} (h : o.Alike R o') :
    Option.Rel R o.token? o'.token? := by
  cases h with
  | missing | refused => exact .none
  | found _ h | stored h => exact .some h

theorem Outcome.Alike.rename {o o' : Outcome} {ρ : Token → Token} (h : o.Alike (ρ · = ·) o') :
    o' = o.rename ρ := by
  cases h with
  | missing | refused => rfl
  | found data h | stored h =>
    subst h
    rfl

theorem rel_getElem? {α β : Type} {R : α → β → Prop} {l : List α} {l' : List β}
    (h : List.Forall₂ R l l') (n : Nat) : Option.Rel R l[n]? l'[n]? := by
  induction h generalizing n with
  | nil => exact .none
  | cons hhead _ ih =>
    cases n with
    | zero => exact .some hhead
    | succ n => exact ih n

/-- What is wanted of both leads to calls that are alike. -/
theorem Demand.call?_alike {history history' : List Outcome}
    (h : List.Forall₂ (Outcome.Alike R) history history') (key : String) (demand : Demand) :
    (demand.call? key history = none ∧ demand.call? key history' = none) ∨
      ∃ (a : Access) (call call' : Call a), demand.call? key history = some ⟨a, call⟩ ∧
        demand.call? key history' = some ⟨a, call'⟩ ∧ call.Alike R call' := by
  cases demand with
  | read => exact .inr ⟨_, _, _, rfl, rfl, .read key⟩
  | create data => exact .inr ⟨_, _, _, rfl, rfl, .create key data⟩
  | write data source =>
    have htokens : Option.Rel R (history[source]?.bind Outcome.token?)
        (history'[source]?.bind Outcome.token?) := by
      have hfound := rel_getElem? h source
      generalize history[source]? = found, history'[source]? = found' at hfound
      cases hfound with
      | none => exact .none
      | some halike => exact halike.token?
    rw [call?, call?]
    generalize history[source]?.bind Outcome.token? = token,
      history'[source]?.bind Outcome.token? = token' at htokens
    cases htokens with
    | none => exact .inl ⟨rfl, rfl⟩
    | some htwins => exact .inr ⟨_, _, _, rfl, rfl, .write key data htwins⟩

theorem Demand.key_of_call? {key : String} {history : List Outcome} {demand : Demand} {a : Access}
    {call : Call a} (h : demand.call? key history = some ⟨a, call⟩) : call.key = key := by
  cases demand with
  | read | create =>
    cases h
    rfl
  | write data source =>
    obtain ⟨token, -, heq⟩ := Option.map_eq_some_iff.1 h
    cases heq
    rfl

/-- Tokens that have a twin were issued. -/
theorem Call.Alike.issued {a : Access} {call call' : Call a} (h : call.Alike (c.Twins c') call') :
    (∀ token ∈ call.expected?, token ∈ c.issued) ∧
      ∀ token ∈ call'.expected?, token ∈ c'.issued := by
  cases h with
  | read | create => exact ⟨nofun, nofun⟩
  | write key data h =>
    refine ⟨fun token htoken => ?_, fun token htoken => ?_⟩
    · obtain rfl := Option.mem_some_iff.1 htoken
      exact h.mem.1
    · obtain rfl := Option.mem_some_iff.1 htoken
      exact h.mem.2

/-- **Servers that keep cells which are alike have sessions that are alike.** -/
theorem Server.session_alike {σ τ : Type} {server : Server σ} {server' : Server τ} {key : String}
    {limit limit' : Nat} {P : σ → Cell → Prop} {Q : τ → Cell → Prop}
    (hkeeps : server.Keeps key limit P) (hkeeps' : server'.Keeps key limit' Q)
    (demands : List Demand) {s : σ} {s' : τ} {history history' : List Outcome} (hP : P s c)
    (hQ : Q s' c') (h : c.Alike c') (hlimit : c.issued.length + demands.length ≤ limit)
    (hlimit' : c'.issued.length + demands.length ≤ limit')
    (hhistory : List.Forall₂ (Outcome.Alike (c.Twins c')) history history') :
    ∃ d d' : Cell, d.Alike d' ∧ List.Forall₂ (Outcome.Alike (d.Twins d'))
      (server.session key demands s history) (server'.session key demands s' history') := by
  induction demands generalizing c c' s s' history history' with
  | nil => exact ⟨c, c', h, hhistory⟩
  | cons demand demands ih =>
    rw [List.length_cons] at hlimit hlimit'
    rcases demand.call?_alike hhistory key with
      ⟨hcall, hcall'⟩ | ⟨a, call, call', hcall, hcall', hcalls⟩
    · rw [session, session, hcall, hcall']
      exact ih hP hQ h (by omega) (by omega) hhistory
    · rw [session, session, hcall, hcall']
      obtain ⟨hissued, hissued'⟩ := hcalls.issued
      obtain ⟨d, hstep, hd⟩ :=
        hkeeps s c a call hP (by omega) (Demand.key_of_call? hcall) hissued
      obtain ⟨d', hstep', hd'⟩ :=
        hkeeps' s' c' a call' hQ (by omega) (Demand.key_of_call? hcall') hissued'
      obtain ⟨halike, houtcomes, htwins⟩ := h.step hcalls hstep hstep'
      have hlength := hstep.length_issued
      have hlength' := hstep'.length_issued
      refine ih hd hd' halike (by omega) (by omega) ?_
      exact List.rel_append (hhistory.imp fun _ _ hold => hold.imp htwins)
        (.cons houtcomes .nil)

/-- **Servers that keep empty cells answer alike**, but for the tokens. -/
theorem Server.exists_renaming {σ τ : Type} {server : Server σ} {server' : Server τ} {key : String}
    {limit limit' : Nat} {P : σ → Cell → Prop} {Q : τ → Cell → Prop}
    (hkeeps : server.Keeps key limit P) (hkeeps' : server'.Keeps key limit' Q) {s : σ} {s' : τ}
    (hP : P s .empty) (hQ : Q s' .empty) {demands : List Demand} (hlimit : demands.length ≤ limit)
    (hlimit' : demands.length ≤ limit') :
    ∃ ρ : Equiv.Perm Token,
      server'.session key demands s' [] = (server.session key demands s []).map (·.rename ρ) := by
  obtain ⟨c, c', h, hsessions⟩ := session_alike hkeeps hkeeps' demands hP hQ Cell.alike_empty
    (by simpa [Cell.empty] using hlimit) (by simpa [Cell.empty] using hlimit') .nil
  obtain ⟨ρ, hρ⟩ := h.exists_perm
  have hrenamed := List.forall₂_map_left_iff (f := Outcome.rename ρ).2 <|
    hsessions.imp fun _ _ halike => (halike.imp hρ).rename.symm
  rw [List.forall₂_eq_eq_eq] at hrenamed
  exact ⟨ρ, hrenamed.symm⟩

end LeaseQueue.Store
