import LeaseQueue.Proofs.Store.ObjectStores

/-!
# Puts that fail

A put fails because the object store says so, or because the store does not say what the token is of
what it has stored.  The second failure is no refusal: the object is there.

  `((r.server store).answer s call).1 = .error cause →`
  `object? ((r.server store).answer s call).2 = object? s ∨ r.Nameless store s call`

And a create conflicts because an object is in its way, or because the store finds something
missing.  The second conflict is none: nobody else has been there.

  `((r.server store).answer s (.create key data)).1 = .error (.conflict key) →`
  `present s (r.path key) ∨ r.Misses store s (.create key data)`
-/

namespace LeaseQueue.Store

/-- What the adapter calls a put. -/
def Call.operation : Call .put → String
  | .write _ _ _ => "write"
  | .create _ _ => "create"

/-- A store that does nothing where it reports an error, as far as its objects tell. -/
def ObjectStore.Spares {σ : Type} (store : ObjectStore σ) (object? : σ → String → Option Bytes) :
    Prop :=
  ∀ (s : σ) (path : String) (data : Bytes) (mode : PutMode) (cause : ObjectError),
    (store.reply s (.put path data mode)).1 = .error cause →
    object? (store.reply s (.put path data mode)).2 = object? s

/-- An object is in the way of a put. -/
inductive ObjectError.IsClash : ObjectError → Prop where
  | precondition (path detail : String) : IsClash (.precondition path detail)
  | alreadyExists (path detail : String) : IsClash (.alreadyExists path detail)

/-- A store that says an object is in the way of a create only where one is present. -/
def ObjectStore.Frank {σ : Type} (store : ObjectStore σ) (present : σ → String → Prop) : Prop :=
  ∀ (s : σ) (path : String) (data : Bytes) (cause : ObjectError),
    (store.reply s (.put path data .create)).1 = .error cause → cause.IsClash → present s path

namespace Remote

/-- The failure of a put that was done, but whose token is missing. -/
def unnamed (r : Remote) (operation : String) : Error :=
  .backend r.name operation "store returned no version token"

/-- The put is done, and the store does not tell the token. -/
def Nameless {σ : Type} (r : Remote) (store : ObjectStore σ) (s : σ) (call : Call .put) : Prop :=
  ∃ revision, (store.reply s (r.request call)).1 = .ok revision ∧ r.field.part? revision = none

/-- The store says that there is nothing to put the object into, or under. -/
def Misses {σ : Type} (r : Remote) (store : ObjectStore σ) (s : σ) (call : Call .put) : Prop :=
  ∃ path detail, (store.reply s (r.request call)).1 = .error (.notFound path detail)

variable {r : Remote} {call : Call .put} {reply : Reply .put} {cause : Error}
  {refusal : ObjectError}

/-! ## What a reply to a put means -/

theorem token_of_part?_none {revision : Revision} (h : r.field.part? revision = none)
    (operation : String) : r.token operation revision = .error (r.unnamed operation) := by
  obtain ⟨entityTag, version⟩ := revision
  unfold Remote.token
  cases hfield : r.field <;> rw [hfield] at h <;> cases h <;> rfl

theorem answer_error (r : Remote) (call : Call .put) (refusal : ObjectError) :
    r.answer call (.error refusal) = .error (r.putError call.key call.operation refusal) := by
  cases call <;> rfl

theorem answer_ok (r : Remote) (call : Call .put) (revision : Revision) :
    r.answer call (.ok revision) = r.token call.operation revision := by
  cases call <;> rfl

theorem putError_of_not_isRefusal (h : ¬ refusal.IsRefusal) (key operation : String) :
    r.putError key operation refusal = .backend r.name operation refusal.message := by
  cases refusal with
  | precondition path detail => exact absurd (.precondition path detail) h
  | alreadyExists path detail => exact absurd (.alreadyExists path detail) h
  | notFound path detail => exact absurd (.notFound path detail) h
  | _ => rfl

/-- A put has failed in one of two ways. -/
theorem reply_of_error (h : r.answer call reply = .error cause) :
    (∃ refusal, reply = .error refusal ∧ cause = r.putError call.key call.operation refusal) ∨
      ∃ revision, reply = .ok revision ∧ r.field.part? revision = none ∧
        cause = r.unnamed call.operation := by
  cases reply with
  | error refusal =>
    rw [answer_error] at h
    cases h
    exact .inl ⟨refusal, rfl, rfl⟩
  | ok revision =>
    rw [answer_ok] at h
    cases hpart : r.field.part? revision with
    | some token =>
      rw [token_of_part? hpart] at h
      cases h
    | none =>
      rw [token_of_part?_none hpart] at h
      cases h
      exact .inr ⟨revision, rfl, hpart, rfl⟩

/-! ## What a failed put leaves behind -/

variable {σ : Type} {store : ObjectStore σ} {object? : σ → String → Option Bytes} {s : σ}

theorem state_answer (r : Remote) (store : ObjectStore σ) (s : σ) {a : Access} (call : Call a) :
    ((r.server store).answer s call).2 = (store.reply s (r.request call)).2 := rfl

/-- **A put that has failed has done nothing, or its token is missing.** -/
theorem spared_or_nameless (hspares : store.Spares object?)
    (h : ((r.server store).answer s call).1 = .error cause) :
    object? ((r.server store).answer s call).2 = object? s ∨
      r.Nameless store s call ∧ cause = r.unnamed call.operation := by
  rcases reply_of_error h with ⟨refusal, hreply, -⟩ | ⟨revision, hreply, hpart, hcause⟩
  · refine .inl ?_
    rw [state_answer]
    cases call with
    | write key data token => exact hspares s _ data _ refusal hreply
    | create key data => exact hspares s _ data _ refusal hreply
  · exact .inr ⟨⟨revision, hreply, hpart⟩, hcause⟩

/-! ## What a conflict means -/

/-- A conflict is a clash, or something that is missing. -/
theorem reply_of_conflict {key : String} (h : r.answer call reply = .error (.conflict key)) :
    ∃ refusal, reply = .error refusal ∧
      (refusal.IsClash ∨ ∃ path detail, refusal = .notFound path detail) := by
  rcases reply_of_error h with ⟨refusal, hreply, hcause⟩ | ⟨-, -, -, hcause⟩
  · refine ⟨refusal, hreply, ?_⟩
    cases refusal with
    | precondition path detail => exact .inl (.precondition path detail)
    | alreadyExists path detail => exact .inl (.alreadyExists path detail)
    | notFound path detail => exact .inr ⟨path, detail, rfl⟩
    | _ => cases hcause
  · cases hcause

variable {present : σ → String → Prop} {key : String} {data : Bytes}

/-- **A create that conflicts has an object in its way, or something is missing.** -/
theorem present_or_misses (hfrank : store.Frank present) {found : String}
    (h : ((r.server store).answer s (.create key data)).1 = .error (.conflict found)) :
    present s (r.path key) ∨ r.Misses store s (.create key data) := by
  obtain ⟨refusal, hreply, hclash | ⟨path, detail, rfl⟩⟩ := reply_of_conflict h
  · exact .inl (hfrank s _ data refusal hreply hclash)
  · exact .inr ⟨path, detail, hreply⟩

/-- A failure of another kind is told as it is. -/
theorem answer_of_not_isRefusal {refusal : ObjectError}
    (hreply : (store.reply s (r.request call)).1 = .error refusal) (h : ¬ refusal.IsRefusal) :
    ((r.server store).answer s call).1 =
      .error (.backend r.name call.operation refusal.message) := by
  show r.answer call (store.reply s (r.request call)).1 = _
  rw [hreply, answer_error, putError_of_not_isRefusal h]

end Remote

/-! ## The object store in memory -/

def ObjectMap.bytes? (m : ObjectMap) (path : String) : Option Bytes :=
  (m.entry? path).map (·.data)

/-- What is stored is reported, so what is not reported is not stored. -/
theorem ObjectMap.spares : objectStore.Spares bytes? := by
  intro m path data mode cause h
  revert h
  cases mode with
  | create =>
    simp only [objectStore, serve]
    cases m.entry? path with
    | none =>
      intro h
      cases h
    | some e => exact fun _ => rfl
  | update expected =>
    simp only [objectStore, serve]
    split
    · exact fun _ => rfl
    · exact fun _ => rfl
    · split
      · intro h
        cases h
      · exact fun _ => rfl

theorem ObjectMap.frank : objectStore.Frank fun m path => (m.entry? path).isSome := by
  intro m path data cause h _
  revert h
  simp only [objectStore, serve]
  cases m.entry? path with
  | none =>
    intro h
    cases h
  | some e => exact fun _ => rfl

end LeaseQueue.Store
