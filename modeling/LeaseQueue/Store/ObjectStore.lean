import LeaseQueue.Store.Basic

/-!
# Object stores

An object store holds objects under paths.  Each stored object has an entity tag or a version number,
or both, by which a put can be made conditional.  `ObjectMap` is such a store in memory: entity tags are
numbered over the whole store and there are no version numbers.
-/

namespace LeaseQueue.Store

/-! ## Requests and replies -/

/-- Why a request failed.  Most reasons name the path; `detail` is what lies beneath. -/
inductive ObjectError where
  | precondition (path detail : String)
  | alreadyExists (path detail : String)
  | notFound (path detail : String)
  | notModified (path detail : String)
  | permissionDenied (path detail : String)
  | unauthenticated (path detail : String)
  | notImplemented
  | notSupported (detail : String)
  | generic (store detail : String)
deriving DecidableEq, Repr

def ObjectError.message : ObjectError → String
  | .precondition path detail => "Request precondition failure for path " ++ path ++ ": " ++ detail
  | .alreadyExists path detail =>
    "Object at location " ++ path ++ " already exists: " ++ detail
  | .notFound path detail => "Object at location " ++ path ++ " not found: " ++ detail
  | .notModified path detail => "Object at location " ++ path ++ " not modified: " ++ detail
  | .permissionDenied path detail =>
    "The operation lacked the necessary privileges to complete for path " ++ path ++ ": " ++ detail
  | .unauthenticated path detail =>
    "The operation lacked valid authentication credentials for path " ++ path ++ ": " ++ detail
  | .notImplemented => "Operation not yet implemented."
  | .notSupported detail => "Operation not supported: " ++ detail
  | .generic store detail => "Generic " ++ store ++ " error: " ++ detail

/-- What identifies a revision of an object. -/
structure Revision where
  entityTag : Option String
  version : Option String
deriving DecidableEq, Repr

inductive PutMode where
  /-- Only if there is no object. -/
  | create
  /-- Only if the object is of this revision. -/
  | update (expected : Revision)
deriving DecidableEq, Repr

inductive Request : Access → Type where
  | get (path : String) : Request .read
  | put (path : String) (data : Bytes) (mode : PutMode) : Request .put
deriving DecidableEq, Repr

/-- An object that a store hands out; its body comes in pieces and may break off. -/
structure Download where
  revision : Revision
  chunks : List Bytes
  failure : Option ObjectError
deriving DecidableEq, Repr

abbrev Reply : Access → Type
  | .read => Except ObjectError Download
  | .put => Except ObjectError Revision

/-! ## A store in memory -/

structure ObjectMap.Entry where
  data : Bytes
  entityTag : Nat
deriving DecidableEq, Repr

/-- Objects in memory under their paths. -/
structure ObjectMap where
  entries : List (String × ObjectMap.Entry)
  nextTag : Nat
deriving DecidableEq, Repr

namespace ObjectMap

def empty : ObjectMap := ⟨[], 0⟩

def entry? (m : ObjectMap) (path : String) : Option ObjectMap.Entry := m.entries.lookup path

def setEntry (path : String) (e : ObjectMap.Entry) :
    List (String × ObjectMap.Entry) → List (String × ObjectMap.Entry)
  | [] => [(path, e)]
  | (k, x) :: rest => if k = path then (path, e) :: rest else (k, x) :: setEntry path e rest

def store (m : ObjectMap) (path : String) (data : Bytes) : Reply .put × ObjectMap :=
  (.ok ⟨some (toString m.nextTag), none⟩,
    { m with entries := setEntry path ⟨data, m.nextTag⟩ m.entries, nextTag := m.nextTag + 1 })

def serve {a : Access} (m : ObjectMap) : Request a → Reply a × ObjectMap
  | .get path =>
    match m.entry? path with
    | none => (.error (.notFound path "no data in memory"), m)
    | some e => (.ok ⟨⟨some (toString e.entityTag), none⟩, [e.data], none⟩, m)
  | .put path data .create =>
    match m.entry? path with
    | some _ => (.error (.alreadyExists path "object exists in memory"), m)
    | none => m.store path data
  | .put path data (.update expected) =>
    match m.entry? path, expected.entityTag with
    | none, _ => (.error (.precondition path "no object in memory"), m)
    | some _, none =>
      (.error (.generic "InMemory" "ETag required for conditional update"), m)
    | some e, some tag =>
      if toString e.entityTag = tag then m.store path data
      else (.error (.precondition path "entity tags differ"), m)

end ObjectMap

end LeaseQueue.Store
