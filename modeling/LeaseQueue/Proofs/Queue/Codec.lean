import LeaseQueue.Proofs.Json.Formats
import LeaseQueue.Proofs.Json.Readings
import LeaseQueue.Queue.Format

/-!
# Documents that are stored and read

What is stored is read back, unless a payload nests too deep for a reader of documents:

  `decode d.encode = if ∀ j ∈ d.jobs, j.payload.nesting ≤ 124 then .ok d else .error .malformed`

as long as payloads have no numbers but integers of 64 bits.  Whatever the payloads are, a reader
that gets a document at all learns who is in charge and since when.
-/

namespace LeaseQueue

open Json

theorem int64_ofJson (i : Int64) : Format.int64.ofJson (ofInt64 i) = .ok i := by
  have hlow := i.minValue_le_toInt
  have hhigh := i.toInt_le
  simp only [Format.int64, Format.integer, Format.scalar, ofInt64]
  rw [if_pos ⟨hlow, hhigh⟩, Int64.ofInt_toInt]

theorem uint32_ofJson (n : UInt32) : Format.uint32.ofJson (ofUInt32 n) = .ok n := by
  have := n.toNat_lt
  simp only [Format.uint32, Format.integer, Format.scalar, ofUInt32]
  rw [if_pos ⟨by omega, by simp [UInt32.size]; omega⟩]
  simp

theorem uint64_ofJson (n : UInt64) : Format.uint64.ofJson (ofUInt64 n) = .ok n := by
  have := n.toNat_lt
  simp only [Format.uint64, Format.integer, Format.scalar, ofUInt64]
  rw [if_pos ⟨by omega, by simp [UInt64.size]; omega⟩]
  simp

theorem integral_ofInt64 (i : Int64) : (ofInt64 i).Integral := by
  have hlow := i.minValue_le_toInt
  have hhigh := i.toInt_le
  exact .int hlow (Int.lt_of_le_of_lt hhigh (by decide))

theorem integral_ofUInt32 (n : UInt32) : (ofUInt32 n).Integral := by
  have := n.toNat_lt
  exact .int (by omega) (by simp [UInt64.size]; omega)

theorem integral_ofUInt64 (n : UInt64) : (ofUInt64 n).Integral := by
  have := n.toNat_lt
  exact .int (by omega) (by simp [UInt64.size]; omega)

theorem int64_lawfulAt (i : Int64) : Format.int64.LawfulAt (ofInt64 i) :=
  Format.integer_lawfulAt _ _ _ _ (integral_ofInt64 i)

theorem uint32_lawfulAt (n : UInt32) : Format.uint32.LawfulAt (ofUInt32 n) :=
  Format.integer_lawfulAt _ _ _ _ (integral_ofUInt32 n)

theorem uint64_lawfulAt (n : UInt64) : Format.uint64.LawfulAt (ofUInt64 n) :=
  Format.integer_lawfulAt _ _ _ _ (integral_ofUInt64 n)

/-- What a payload may be: sorted members, and no numbers but integers of 64 bits. -/
def Json.IsPayload (v : Json) : Prop := v.Integral ∧ v.normalize = v

def Document.HasPayloads (d : Document) : Prop := ∀ j ∈ d.jobs, j.payload.IsPayload

namespace Job

theorem text_ofJson (s : String) : Format.text.ofJson (.str s) = .ok s := rfl

theorem statusName_ofJson (n : StatusName) : StatusName.format.ofJson (.str n.text) = .ok n := by
  cases n <;> rfl

theorem option_text_ofJson (s : String) :
    (Format.option .text).ofJson (.str s) = .ok (some s) := rfl

theorem option_int64_ofJson (i : Int64) :
    (Format.option .int64).ofJson (ofInt64 i) = .ok (some i) :=
  congrArg (Except.map some) (int64_ofJson i)

theorem option_uint32_ofJson (n : UInt32) :
    (Format.option .uint32).ofJson (ofUInt32 n) = .ok (some n) :=
  congrArg (Except.map some) (uint32_ofJson n)

theorem any_ofJson {v : Json} (h : v.IsPayload) : Format.any.ofJson v = .ok v :=
  congrArg Except.ok h.2

theorem ofJson_toJson {j : Job} (h : j.payload.IsPayload) : format.ofJson j.toJson = .ok j := by
  obtain ⟨id, status, payload, jobType, createdAt, attempts, maxAttempts⟩ := j
  have hany := any_ofJson h
  cases status <;> cases jobType <;> cases maxAttempts <;>
  · simp [format, toJson, Record.format, Record.ofJson, Record.ofMembers, Record.field?, record,
      Json.optional, Field.of, lease?, text_ofJson, statusName_ofJson, option_text_ofJson,
      option_int64_ofJson, option_uint32_ofJson, int64_ofJson, uint32_ofJson, hany, Except.map,
      Draft.finish, require, statusOf, Status.name, bind, Except.bind, pure, Except.pure]

theorem forall_mem_optional {α : Type} {key : String} {toJson : α → Json} {o : Option α}
    {P : String × Json → Prop} (h : ∀ a, P (key, toJson a)) :
    ∀ m ∈ Json.optional key toJson o, P m := by
  intro m hm
  cases o with
  | none => cases hm
  | some a =>
    rw [List.mem_singleton.1 hm]
    exact h a

theorem lawfulAt_toJson {j : Job} (h : j.payload.IsPayload) : format.LawfulAt j.toJson := by
  have known {key : String} {v : Json} {field : Field Draft} (hf : record.field? key = some field)
      (hv : field.LawfulAt v) : record.Knows (key, v) := ⟨field, hf, hv⟩
  apply Record.lawfulAt
  simp only [List.forall_mem_append, List.forall_mem_cons, List.not_mem_nil, false_implies,
    implies_true, and_true]
  refine ⟨⟨⟨⟨⟨⟨?_, ?_, ?_⟩, ?_⟩, ?_⟩, ?_⟩, ?_, ?_⟩, ?_⟩
  · exact known rfl (Field.of_lawfulAt _ _ _ _ (Format.text_lawfulAt (.str _)))
  · exact known rfl (Field.of_lawfulAt _ _ _ _ (Format.variant_lawfulAt _ _))
  · exact known rfl (Field.of_lawfulAt _ _ _ _ (Format.any_lawfulAt h.1))
  · exact forall_mem_optional fun s => known rfl (Field.of_lawfulAt _ _ _ _
      (Format.option_lawfulAt (.str s) (Format.text_lawfulAt (.str s))))
  · exact forall_mem_optional fun s => known rfl (Field.of_lawfulAt _ _ _ _
      (Format.option_lawfulAt (.str s) (Format.text_lawfulAt (.str s))))
  · exact forall_mem_optional fun i => known rfl (Field.of_lawfulAt _ _ _ _
      (Format.option_lawfulAt (integral_ofInt64 i) (int64_lawfulAt i)))
  · exact known rfl (Field.of_lawfulAt _ _ _ _ (int64_lawfulAt _))
  · exact known rfl (Field.of_lawfulAt _ _ _ _ (uint32_lawfulAt _))
  · exact forall_mem_optional fun n => known rfl (Field.of_lawfulAt _ _ _ _
      (Format.option_lawfulAt (integral_ofUInt32 n) (uint32_lawfulAt n)))

theorem integral_toJson {j : Job} (h : j.payload.IsPayload) : j.toJson.Integral := by
  apply Json.Integral.obj
  simp only [List.forall_mem_append, List.forall_mem_cons, List.not_mem_nil, false_implies,
    implies_true, and_true]
  exact ⟨⟨⟨⟨⟨⟨.str _, .str _, h.1⟩, forall_mem_optional .str⟩, forall_mem_optional .str⟩,
    forall_mem_optional integral_ofInt64⟩, integral_ofInt64 _, integral_ofUInt32 _⟩,
    forall_mem_optional integral_ofUInt32⟩

theorem nesting_toJson_le_iff (j : Job) (n : Nat) :
    j.toJson.nesting ≤ n + 1 ↔ j.payload.nesting ≤ n := by
  rw [toJson, nesting, Nat.add_le_add_iff_right, nestingMembers_le_iff]
  simp only [List.forall_mem_append, List.forall_mem_cons, List.not_mem_nil, false_implies,
    implies_true, and_true]
  constructor
  · exact fun h => h.1.1.1.1.1.2.2
  · exact fun h => ⟨⟨⟨⟨⟨⟨Nat.zero_le _, Nat.zero_le _, h⟩,
      forall_mem_optional fun _ => Nat.zero_le _⟩, forall_mem_optional fun _ => Nat.zero_le _⟩,
      forall_mem_optional fun _ => Nat.zero_le _⟩, Nat.zero_le _, Nat.zero_le _⟩,
      forall_mem_optional fun _ => Nat.zero_le _⟩

end Job

namespace Document

theorem mapM_map_ok {α β ε : Type} {f : α → β} {g : β → Except ε α} {as : List α}
    (h : ∀ a ∈ as, g (f a) = .ok a) : (as.map f).mapM g = .ok as := by
  induction as with
  | nil => rfl
  | cons a as ih =>
    obtain ⟨ha, has⟩ := List.forall_mem_cons.1 h
    exact mapM_cons_eq_ok.2 ⟨a, as, ha, ih has, rfl⟩

theorem ofJson_toJson {d : Document} (h : d.HasPayloads) : format.ofJson d.toJson = .ok d := by
  obtain ⟨broker, brokerHeartbeat, jobs, completedTotal⟩ := d
  have hjobs : (Format.list Job.format).ofJson (.arr (jobs.map Job.toJson)) = .ok jobs :=
    mapM_map_ok fun j hj => Job.ofJson_toJson (h j hj)
  have hbroker : (Format.option .text).ofJson (Json.ofOption .str broker) = .ok broker := by
    cases broker <;> rfl
  simp [format, toJson, Record.format, Record.ofJson, Record.ofMembers, Record.field?, record,
    Field.of, hbroker, hjobs, int64_ofJson, uint64_ofJson, Except.map]

theorem lawfulAt_toJson {d : Document} (h : d.HasPayloads) : format.LawfulAt d.toJson := by
  have known {key : String} {v : Json} {field : Field Draft} (hf : record.field? key = some field)
      (hv : field.LawfulAt v) : record.Knows (key, v) := ⟨field, hf, hv⟩
  have hbroker : (Json.ofOption .str d.broker).Integral := by
    cases d.broker with
    | none => exact .null
    | some s => exact .str s
  have hjobs : ∀ v ∈ d.jobs.map Job.toJson, v.Integral ∧ Job.format.LawfulAt v := by
    intro v hv
    obtain ⟨j, hj, rfl⟩ := List.mem_map.1 hv
    exact ⟨Job.integral_toJson (h j hj), Job.lawfulAt_toJson (h j hj)⟩
  apply Record.lawfulAt
  simp only [List.forall_mem_cons, List.not_mem_nil, false_implies, implies_true, and_true]
  refine ⟨?_, ?_, ?_, ?_⟩
  · exact known rfl (Field.of_lawfulAt _ _ _ _
      (Format.option_lawfulAt hbroker (Format.text_lawfulAt hbroker)))
  · exact known rfl (Field.of_lawfulAt _ _ _ _ (int64_lawfulAt _))
  · exact known rfl (Field.of_lawfulAt _ _ _ _
      (Format.list_lawfulAt (fun v hv => (hjobs v hv).1) fun v hv => (hjobs v hv).2))
  · exact known rfl (Field.of_lawfulAt _ _ _ _ (uint64_lawfulAt _))

theorem nesting_toJson_le_iff (d : Document) (n : Nat) :
    d.toJson.nesting ≤ n + 3 ↔ ∀ j ∈ d.jobs, j.payload.nesting ≤ n := by
  have hbroker : (Json.ofOption .str d.broker).nesting = 0 := by cases d.broker <;> rfl
  rw [toJson, nesting, Nat.add_le_add_iff_right, nestingMembers_le_iff]
  simp only [List.forall_mem_cons, List.not_mem_nil, false_implies, implies_true, and_true, hbroker,
    nesting, ofInt64, ofUInt64, Nat.zero_le, true_and, Nat.add_le_add_iff_right,
    nestingItems_le_iff, List.forall_mem_map, Job.nesting_toJson_le_iff]

/-- **What is stored is read back**, unless a payload nests too deep for a reader of documents. -/
theorem decode_encode {d : Document} (h : d.HasPayloads) :
    decode d.encode =
      if ∀ j ∈ d.jobs, j.payload.nesting ≤ 124 then .ok d else .error .malformed := by
  have hdepth : d.toJson.nesting ≤ Json.maxNesting ↔ _ := nesting_toJson_le_iff d 124
  simp only [decode, encode, Format.parse_render (lawfulAt_toJson h) (ofJson_toJson h), hdepth]

theorem eq_of_decode_encode {d e : Document} (h : d.HasPayloads) (hd : decode d.encode = .ok e) :
    e = d := by
  rw [decode_encode h] at hd
  split at hd
  · exact (Except.ok.inj hd).symm
  · cases hd

/-! ## Whoever reads a document learns its broker -/

/-- A field that is set is never set anew. -/
theorem broker_of_foldMembers {depth n : Nat} {first : Bool} {draft draft' : Draft} {s rest : Bytes}
    {broker : Option String} {heartbeat : Millis}
    (hset : draft.broker = some broker ∧ draft.brokerHeartbeat = some heartbeat)
    (h : foldMembers (record.readMember depth) n first draft s = .ok (draft', rest)) :
    draft'.broker = some broker ∧ draft'.brokerHeartbeat = some heartbeat := by
  refine foldMembers_induction (P := fun draft : Draft =>
    draft.broker = some broker ∧ draft.brokerHeartbeat = some heartbeat)
    (fun _ _ _ _ _ hset hmember => ?_) hset h
  refine Record.readMember_induction (Q := fun draft : Draft =>
    draft.broker = some broker ∧ draft.brokerHeartbeat = some heartbeat) ?_ hset hmember
  intro field hfield s draft draft' rest hset hblank hread
  simp only [record, List.mem_cons, List.not_mem_nil, or_false] at hfield
  rcases hfield with rfl | rfl | rfl | rfl
  · simp [Field.of, hset.1] at hblank
  · simp [Field.of, hset.2] at hblank
  · obtain ⟨jobs, -, rfl⟩ := Field.exists_of_read_eq_ok hread
    exact hset
  · obtain ⟨total, -, rfl⟩ := Field.exists_of_read_eq_ok hread
    exact hset

/-- **A reader learns who is in charge and since when**, if it can read the document at all. -/
theorem broker_of_decode_encode {d d' : Document} (h : decode d.encode = .ok d') :
    d'.broker = d.broker ∧ d'.brokerHeartbeat = d.brokerHeartbeat := by
  have known {key : String} {v : Json} {field : Field Draft} (hf : record.field? key = some field)
      (hv : field.LawfulAt v) : record.Knows (key, v) := ⟨field, hf, hv⟩
  have hintegral : (Json.ofOption .str d.broker).Integral := by
    cases d.broker with
    | none => exact .null
    | some s => exact .str s
  have hbroker : record.Knows ("broker", Json.ofOption .str d.broker) :=
    known rfl (Field.of_lawfulAt _ _ _ _
      (Format.option_lawfulAt hintegral (Format.text_lawfulAt hintegral)))
  have hheartbeat : record.Knows ("brokerHeartbeat", Json.ofInt64 d.brokerHeartbeat) :=
    known rfl (Field.of_lawfulAt _ _ _ _ (int64_lawfulAt _))
  have htakeBroker : record.takeMember record.blank ("broker", Json.ofOption .str d.broker) =
      .ok ⟨some d.broker, none, none, none⟩ := by
    have hof : (Format.option .text).ofJson (Json.ofOption .str d.broker) = .ok d.broker := by
      cases d.broker <;> rfl
    simp [Record.takeMember, Record.ofMembers, Record.field?, record, Field.of, hof, Except.map]
  have htakeHeartbeat : record.takeMember ⟨some d.broker, none, none, none⟩
      ("brokerHeartbeat", Json.ofInt64 d.brokerHeartbeat) =
      .ok ⟨some d.broker, some d.brokerHeartbeat, none, none⟩ := by
    simp [Record.takeMember, Record.ofMembers, Record.field?, record, Field.of, int64_ofJson,
      Except.map]
  rw [decode, Format.parse, Json.whole, encode, toJson, render_obj] at h
  split at h
  · cases h
  next v rest hread =>
    split at h
    · cases h
      simp only [format, Record.format, Record.read,
        skipSpace_cons (b := Ascii.leftBrace) (by decide),
        show Ascii.leftBrace ≠ Ascii.leftBracket by decide, if_true, if_false, Json.maxNesting,
        Format.inside] at hread
      obtain ⟨draft, rest', hmembers, hfinish⟩ := Record.exists_of_finishReading_eq_ok hread
      obtain ⟨rest', hfold⟩ := foldMembers_of_readMembers hmembers
      obtain ⟨n, hfold⟩ := foldMembers_membersText true
        (Record.takesAs hbroker _) htakeBroker hfold
      obtain ⟨n, hfold⟩ := foldMembers_membersText false
        (Record.takesAs hheartbeat _) htakeHeartbeat hfold
      obtain ⟨hsame, hsame'⟩ := broker_of_foldMembers ⟨rfl, rfl⟩ hfold
      obtain rfl := Except.ok.inj hfinish
      rw [hsame, hsame']
      exact ⟨rfl, rfl⟩
    · cases h

end Document

end LeaseQueue
