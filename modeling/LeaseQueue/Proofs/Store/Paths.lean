import LeaseQueue.Proofs.Store.ObjectStores
import Mathlib.Data.List.Infix

/-!
# Folders keep apart

A path has the pieces of the folder and then those of the key, each one encoded, with one slash
between them.  The pieces can be read from it again:

    segments (ofChars cs) = (segments cs).map encodeSegment
    readSegment? (encodeSegment cs) = some cs

So nothing but the pieces counts, and an adapter does not reach an object of another one if neither
folder lies in the other.
-/

namespace LeaseQueue.ObjectPath

/-! ## Segments of a key -/

theorem segments_nil : segments [] = [] := rfl

theorem segments_append_slash (xs ys : List Char) :
    segments (xs ++ '/' :: ys) = segments xs ++ segments ys := by
  simp only [segments, List.splitOn_append_cons_self, List.filter_append]

theorem segments_slash (cs : List Char) : segments ('/' :: cs) = segments cs :=
  segments_append_slash [] cs

theorem segments_dropSlashes (cs : List Char) : segments (dropSlashes cs) = segments cs := by
  induction cs with
  | nil => rfl
  | cons c cs ih =>
    by_cases hc : c = '/'
    · subst hc
      rw [segments_slash]
      exact ih
    · rw [dropSlashes, List.dropWhile_cons_of_neg (by simpa using hc)]

theorem segments_reverse_dropSlashes (cs : List Char) :
    segments (dropSlashes cs).reverse = segments cs.reverse := by
  induction cs with
  | nil => rfl
  | cons c cs ih =>
    by_cases hc : c = '/'
    · subst hc
      rw [List.reverse_cons, segments_append_slash, segments_nil, List.append_nil]
      exact ih
    · rw [dropSlashes, List.dropWhile_cons_of_neg (by simpa using hc)]

theorem segments_trimSlashes (cs : List Char) : segments (trimSlashes cs) = segments cs := by
  rw [trimSlashes, segments_reverse_dropSlashes, List.reverse_reverse, segments_dropSlashes]

theorem segments_underChars (folder key : List Char) :
    segments (underChars folder key) = segments folder ++ segments key := by
  rw [← segments_trimSlashes folder, ← segments_dropSlashes key]
  unfold underChars
  split
  next hnone => rw [hnone, segments_nil, List.nil_append]
  next c cs hsome => rw [hsome, segments_append_slash]

theorem slash_notMem_of_mem_splitOn {cs piece : List Char} (h : piece ∈ cs.splitOn '/') :
    '/' ∉ piece := by
  induction cs generalizing piece with
  | nil =>
    rw [List.splitOn_nil, List.mem_singleton] at h
    exact h ▸ List.not_mem_nil
  | cons c cs ih =>
    rw [List.splitOn_cons_eq_if_modifyHead] at h
    split at h
    · rcases List.mem_cons.1 h with rfl | htail
      · exact List.not_mem_nil
      · exact ih htail
    next hc =>
      obtain ⟨head, tail, hsplit⟩ := List.exists_cons_of_ne_nil (List.splitOn_ne_nil '/' cs)
      rw [hsplit] at h ih
      rcases List.mem_cons.1 h with rfl | htail
      · intro hmem
        rcases List.mem_cons.1 hmem with rfl | hmem
        · exact hc (beq_self_eq_true _)
        · exact ih List.mem_cons_self hmem
      · exact ih (List.mem_cons_of_mem _ htail)

theorem of_mem_segments {cs piece : List Char} (h : piece ∈ segments cs) :
    piece ≠ [] ∧ '/' ∉ piece := by
  obtain ⟨hmem, hsome⟩ := List.mem_filter.1 h
  exact ⟨by simpa using hsome, slash_notMem_of_mem_splitOn hmem⟩

/-- Pieces that are not empty and have no slash are found again between slashes. -/
theorem segments_intercalate {pieces : List (List Char)}
    (h : ∀ piece ∈ pieces, piece ≠ [] ∧ '/' ∉ piece) :
    segments (['/'].intercalate pieces) = pieces := by
  by_cases hnone : pieces = []
  · subst hnone
    rfl
  · rw [segments, List.splitOn_intercalate '/' (fun piece hp => (h piece hp).2) hnone,
      List.filter_eq_self]
    intro piece hp
    simpa using (h piece hp).1

/-! ## What a piece of a path stands for -/

/-- The octets that a piece of a path stands for. -/
def readOctets : List Char → Bytes
  | '%' :: high :: low :: rest => (Bytes.ofHex? [high, low]).getD [] ++ readOctets rest
  | c :: rest => Bytes.ofChar c :: readOctets rest
  | [] => []

/-- The segment that a piece of a path stands for. -/
def readSegment? (piece : List Char) : Option (List Char) :=
  (Bytes.toText? (readOctets piece)).map String.toList

theorem readOctets_cons_of_ne {c : Char} (h : c ≠ '%') (rest : List Char) :
    readOctets (c :: rest) = Bytes.ofChar c :: readOctets rest := by
  rw [readOctets]
  rintro _ _ _ rfl
  exact absurd rfl h

/-- What can be checked for each octet holds for all. -/
theorem forall_octets {p : UInt8 → Prop} (h : ∀ n < 256, p n.toUInt8) (b : UInt8) : p b := by
  have hb := h b.toNat b.toNat_lt
  rwa [Nat.toUInt8_eq, UInt8.ofNat_toNat] at hb

/-- Of the octets that are written as they are, none is a percent sign and each is ASCII. -/
theorem plain_of_not_isReserved : ∀ b : UInt8, isReserved b = false →
    Char.ofNat b.toNat ≠ '%' ∧ Bytes.ofChar (Char.ofNat b.toNat) = b :=
  forall_octets (by decide +kernel)

theorem ofHex?_percent : ∀ b : UInt8, Bytes.ofHex? ((percent b).drop 1) = some [b] :=
  forall_octets (by decide +kernel)

theorem readOctets_percent (b : UInt8) (rest : List Char) :
    readOctets (percent b ++ rest) = b :: readOctets rest := by
  have hhex := ofHex?_percent b
  rw [percent, List.drop_one, List.tail_cons] at hhex
  rw [percent, List.cons_append, List.cons_append, List.cons_append, List.nil_append, readOctets,
    hhex]
  rfl

theorem readOctets_encodeOctet (b : UInt8) (rest : List Char) :
    readOctets (encodeOctet b ++ rest) = b :: readOctets rest := by
  unfold encodeOctet
  split
  · exact readOctets_percent b rest
  next hplain =>
    obtain ⟨hpercent, hoctet⟩ := plain_of_not_isReserved b (Bool.eq_false_iff.2 hplain)
    rw [List.singleton_append, readOctets_cons_of_ne hpercent, hoctet]

theorem readOctets_flatMap (b : Bytes) : readOctets (b.flatMap encodeOctet) = b := by
  induction b with
  | nil => rfl
  | cons x b ih => rw [List.flatMap_cons, readOctets_encodeOctet, ih]

/-- The escaped dots stand for dots, as any other piece stands for its segment. -/
theorem readOctets_encodeSegment (cs : List Char) :
    readOctets (encodeSegment cs) = Bytes.ofText (String.ofList cs) := by
  unfold encodeSegment
  split
  next hdot =>
    subst hdot
    decide
  split
  next hdots =>
    subst hdots
    decide
  · exact readOctets_flatMap _

theorem readSegment?_encodeSegment (cs : List Char) :
    readSegment? (encodeSegment cs) = some cs := by
  rw [readSegment?, readOctets_encodeSegment, Bytes.toText?_ofText, Option.map_some,
    String.toList_ofList]

theorem encodeSegment_injective : Function.Injective encodeSegment := fun cs cs' h =>
  Option.some.inj (by rw [← readSegment?_encodeSegment, h, readSegment?_encodeSegment])

/-! ## Encoded pieces lie between slashes and do not lead elsewhere -/

/-- In UTF-8 a character that is not ASCII has no octet below 0x80. -/
theorem toNat_eq_of_mem_utf8EncodeChar {c : Char} {b : UInt8} (h : b ∈ String.utf8EncodeChar c)
    (hb : b.toNat < 0x80) : c.toNat = b.toNat := by
  have hhigh {n : Nat} (hlow : 0x80 ≤ n) (hn : n < 0x100) : b ≠ UInt8.ofNat n := by
    rintro rfl
    rw [UInt8.toNat_ofNat_of_lt' hn] at hb
    omega
  unfold String.utf8EncodeChar at h
  dsimp only at h
  split at h
  next hascii =>
    rw [List.mem_singleton.1 h, UInt8.toNat_ofNat_of_lt' (Nat.lt_of_le_of_lt hascii (by decide))]
    rfl
  all_goals
    (repeat' split at h) <;> simp only [List.mem_cons, List.not_mem_nil, or_false] at h
  · rcases h with h | h <;> exact absurd h (hhigh (by omega) (by omega))
  · rcases h with h | h | h <;> exact absurd h (hhigh (by omega) (by omega))
  · rcases h with h | h | h | h <;> exact absurd h (hhigh (by omega) (by omega))

theorem slash_of_mem_ofText {cs : List Char} (h : 0x2F ∈ Bytes.ofText (String.ofList cs)) :
    '/' ∈ cs := by
  rw [Bytes.ofText, String.toByteArray_ofList, List.utf8Encode, List.toList_data_toByteArray] at h
  obtain ⟨c, hc, hslash⟩ := List.mem_flatMap.1 h
  obtain rfl : c = '/' := Char.toNat_inj.1 (toNat_eq_of_mem_utf8EncodeChar hslash (by decide))
  exact hc

theorem eq_slash_of_mem_encodeOctet : ∀ b : UInt8, '/' ∈ encodeOctet b → b = 0x2F :=
  forall_octets (by decide +kernel)

theorem slash_of_mem_encodeSegment {cs : List Char} (h : '/' ∈ encodeSegment cs) : '/' ∈ cs := by
  unfold encodeSegment at h
  split at h
  · exact absurd h (by decide)
  split at h
  · exact absurd h (by decide)
  · obtain ⟨b, hb, hslash⟩ := List.mem_flatMap.1 h
    exact slash_of_mem_ofText (eq_slash_of_mem_encodeOctet b hslash ▸ hb)

theorem encodeSegment_ne_nil {cs : List Char} (h : cs ≠ []) : encodeSegment cs ≠ [] :=
  fun hnil => h (encodeSegment_injective (hnil.trans (by decide)))

/-- A piece that would be read as itself but is not written as itself is not written at all. -/
theorem encodeSegment_ne {piece : List Char}
    (hread : readOctets piece = readOctets (encodeSegment piece)) (hne : encodeSegment piece ≠ piece)
    (cs : List Char) : encodeSegment cs ≠ piece := by
  rintro rfl
  have hself : readSegment? (encodeSegment cs) = some (encodeSegment cs) := by
    rw [readSegment?, hread, ← readSegment?, readSegment?_encodeSegment]
  rw [readSegment?_encodeSegment] at hself
  exact hne (congrArg encodeSegment (Option.some.inj hself).symm)

theorem encodeSegment_undotted (cs : List Char) :
    encodeSegment cs ≠ ['.'] ∧ encodeSegment cs ≠ ['.', '.'] :=
  ⟨encodeSegment_ne (by decide) (by decide) cs, encodeSegment_ne (by decide) (by decide) cs⟩

/-- **The pieces of a path are the encoded segments of the key**, each by itself. -/
theorem segments_ofChars (cs : List Char) :
    segments (ofChars cs) = (segments cs).map encodeSegment := by
  refine segments_intercalate fun piece hpiece => ?_
  obtain ⟨segment, hmem, rfl⟩ := List.mem_map.1 hpiece
  obtain ⟨hsome, hslash⟩ := of_mem_segments hmem
  exact ⟨encodeSegment_ne_nil hsome, mt slash_of_mem_encodeSegment hslash⟩

end LeaseQueue.ObjectPath

namespace LeaseQueue.Store

/-! ## Requests for other paths -/

def Request.path {a : Access} : Request a → String
  | .get path => path
  | .put path _ _ => path

theorem Remote.path_request {a : Access} (r : Remote) (call : Call a) :
    (r.request call).path = r.path call.key := by
  cases call <;> rfl

/-- A request leaves the objects under other paths alone. -/
theorem Holdings.Step.object?_eq {field : TokenField} {h h' : Holdings} {a : Access}
    {request : Request a} {reply : Reply a} (hstep : h.Step field request reply h') {path : String}
    (hne : path ≠ request.path) : h'.object? path = h.object? path := by
  cases hstep with
  | missing | found | taken | refused => rfl
  | created | replaced => exact if_neg hne

/-- The state after these calls, one after the other. -/
def Server.after {σ : Type} (server : Server σ) (calls : List (Sigma Call)) (s : σ) : σ :=
  calls.foldl (fun s call => (server.answer s call.2).2) s

namespace Remote

variable {σ : Type} {store : ObjectStore σ} {holdings : σ → Holdings}

theorem step_server {r : Remote} (hconforms : store.Conforms r.field holdings) (s : σ) {a : Access}
    (call : Call a) : (holdings s).Step r.field (r.request call) (store.reply s (r.request call)).1
      (holdings ((r.server store).answer s call).2) := by
  cases call with
  | read key => exact hconforms.get s _
  | create key data => exact hconforms.create s _ data
  | write key data expected =>
    have hupdate := hconforms.update s (r.path key) data expected
    rw [← expected_eq] at hupdate
    exact hupdate

/-- Whoever calls for no key of this path leaves its object alone, however often. -/
theorem object?_after {r : Remote} (hconforms : store.Conforms r.field holdings) {path : String}
    (hne : ∀ key, path ≠ r.path key) (calls : List (Sigma Call)) (s : σ) :
    (holdings ((r.server store).after calls s)).object? path = (holdings s).object? path := by
  induction calls generalizing s with
  | nil => rfl
  | cons call calls ih =>
    have hstep := (step_server hconforms s call.2).object?_eq (path_request r call.2 ▸ hne _)
    exact (ih _).trans hstep

/-! ## Adapters with folders -/

/-- The pieces of the folder; there are none without a folder. -/
def folderSegments (r : Remote) : List (List Char) := ObjectPath.segments (r.folder.getD "").toList

/-- The pieces of the folder, then those of the key. -/
def segments (r : Remote) (key : String) : List (List Char) :=
  r.folderSegments ++ ObjectPath.segments key.toList

theorem path_eq (r : Remote) (key : String) : r.path key = String.ofList
    (['/'].intercalate ((r.segments key).map ObjectPath.encodeSegment)) := by
  rw [path, ObjectPath.ofKey, ObjectPath.under, String.toList_ofList, ObjectPath.ofChars,
    ObjectPath.segments_underChars]
  rfl

theorem segments_path (r : Remote) (key : String) : ObjectPath.segments (r.path key).toList =
    (r.segments key).map ObjectPath.encodeSegment := by
  rw [path, ObjectPath.ofKey, String.toList_ofList, ObjectPath.segments_ofChars, ObjectPath.under,
    String.toList_ofList, ObjectPath.segments_underChars]
  rfl

/-- **Only the pieces count.** -/
theorem path_eq_iff {r r' : Remote} {key key' : String} :
    r.path key = r'.path key' ↔ r.segments key = r'.segments key' := by
  constructor
  · intro h
    refine List.map_injective_iff.2 ObjectPath.encodeSegment_injective ?_
    rw [← segments_path, ← segments_path, h]
  · intro h
    rw [path_eq, path_eq, h]

/-- Neither folder lies in the other. -/
def Apart (r r' : Remote) : Prop :=
  ¬ r.folderSegments <+: r'.folderSegments ∧ ¬ r'.folderSegments <+: r.folderSegments

theorem Apart.path_ne {r r' : Remote} (h : r.Apart r') (key key' : String) :
    r.path key ≠ r'.path key' := by
  intro heq
  have hsame : r.segments key = r'.segments key' := path_eq_iff.1 heq
  have hleft : r.folderSegments <+: r'.segments key' := hsame ▸ List.prefix_append _ _
  rcases List.prefix_or_prefix_of_prefix hleft (List.prefix_append _ _) with hin | hin
  · exact h.1 hin
  · exact h.2 hin

/-- Where an adapter keeps its keys, and whether another one can reach them. -/
structure Isolation (r r' : Remote) : Prop where
  /-- The encoded pieces of the folder and of the key have one slash between them. -/
  joined (key : String) : r.path key = String.ofList (['/'].intercalate
    ((r.folderSegments ++ ObjectPath.segments key.toList).map ObjectPath.encodeSegment))
  /-- Two paths are the same just if their pieces are. -/
  same (key key' : String) : r.path key = r'.path key' ↔
    r.folderSegments ++ ObjectPath.segments key.toList =
      r'.folderSegments ++ ObjectPath.segments key'.toList
  /-- Taken apart at its slashes, the path leads into the folder first. -/
  inside (key : String) :
    r.folderSegments.map ObjectPath.encodeSegment <+: ObjectPath.segments (r.path key).toList
  /-- No piece of it leads back. -/
  undotted (key : String) : ∀ piece ∈ ObjectPath.segments (r.path key).toList,
    piece ≠ ['.'] ∧ piece ≠ ['.', '.']
  /-- The pieces can be read again. -/
  legible (key : String) : (ObjectPath.segments (r.path key).toList).map ObjectPath.readSegment? =
    (r.folderSegments ++ ObjectPath.segments key.toList).map some
  /-- If neither folder lies in the other, they have no path in common. -/
  apart (key key' : String) : r.Apart r' → r.path key ≠ r'.path key'
  /-- Then no calls of the other one reach an object here. -/
  untouched {σ : Type} {store : ObjectStore σ} {holdings : σ → Holdings} (key : String)
    (calls : List (Sigma Call)) (s : σ) : r.Apart r' → store.Conforms r'.field holdings →
    (holdings ((r'.server store).after calls s)).object? (r.path key) =
      (holdings s).object? (r.path key)

/-- **Folders keep apart.**  Whatever the folders and the keys are, a path tells their pieces, and so
adapters with folders of which neither lies in the other share no object. -/
theorem isolation (r r' : Remote) : Isolation r r' where
  joined := r.path_eq
  same _ _ := path_eq_iff
  inside key := by
    rw [segments_path, segments, List.map_append]
    exact List.prefix_append _ _
  undotted key piece hpiece := by
    rw [segments_path] at hpiece
    obtain ⟨segment, -, rfl⟩ := List.mem_map.1 hpiece
    exact ObjectPath.encodeSegment_undotted segment
  legible key := by
    rw [segments_path, List.map_map]
    exact List.map_congr_left fun segment _ => ObjectPath.readSegment?_encodeSegment segment
  apart key key' hapart := hapart.path_ne key key'
  untouched key calls s hapart hconforms :=
    object?_after hconforms (hapart.path_ne key) calls s

example : (⟨"s3", some "/tenants//acme/", .entityTag⟩ : Remote).path "../é%2F" =
    "tenants/acme/%2E%2E/%C3%A9%252F" := by decide +kernel

end Remote

end LeaseQueue.Store
