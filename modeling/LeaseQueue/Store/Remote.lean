import LeaseQueue.ObjectPath
import LeaseQueue.Store.ObjectStore
import LeaseQueue.Text.Quoted

/-!
# Storage on an object store

Calls become requests for the path of the key, and one part of the object's revision serves as its
token.  A failed precondition, an object that exists or one that is gone is a conflict for a put;
a missing object is no failure for a read.
-/

namespace LeaseQueue.Store

/-- The part of a revision that serves as the token. -/
inductive TokenField where
  | entityTag
  | generation
deriving DecidableEq, Repr

structure Remote where
  name : String
  /-- All keys are put under this folder. -/
  folder : Option String
  field : TokenField
deriving DecidableEq, Repr

namespace Remote

def path (r : Remote) (key : String) : String := ObjectPath.ofKey (ObjectPath.under r.folder key)

/-- A description of the adapter on one line. -/
def describe (r : Remote) : String :=
  let folder := match r.folder with
    | none => "None"
    | some f => "Some(" ++ Text.quoted f ++ ")"
  let field := match r.field with
    | .entityTag => "ETag"
    | .generation => "Generation"
  "ObjectStoreBackend \x7b name: " ++ Text.quoted r.name ++ ", prefix: " ++ folder ++
    ", field: " ++ field ++ " \x7d"

/-- The token of a revision; a store may fail to tell it. -/
def token (r : Remote) (operation : String) (revision : Revision) : Except Error Token :=
  match r.field, revision with
  | .entityTag, ⟨some token, _⟩ => .ok token
  | .generation, ⟨_, some token⟩ => .ok token
  | _, _ => .error (.backend r.name operation "store returned no version token")

/-- The revision that a token stands for. -/
def expected (r : Remote) (token : Token) : Revision :=
  match r.field with
  | .entityTag => ⟨some token, none⟩
  | .generation => ⟨none, some token⟩

def request {a : Access} (r : Remote) : Call a → Request a
  | .read key => .get (r.path key)
  | .write key data token => .put (r.path key) data (.update (r.expected token))
  | .create key data => .put (r.path key) data .create

def putError (r : Remote) (key operation : String) : ObjectError → Error
  | .precondition _ _ | .alreadyExists _ _ | .notFound _ _ => .conflict key
  | e => .backend r.name operation e.message

def getError (r : Remote) (e : ObjectError) : Error := .backend r.name "read" e.message

def receive (r : Remote) (d : Download) : Answer .read :=
  match d.failure with
  | some e => .error (r.getError e)
  | none => (r.token "read" d.revision).map fun token => some ⟨d.chunks.flatten, token⟩

/-- What the reply to a call's request means for the call. -/
def answer {a : Access} (r : Remote) : Call a → Reply a → Answer a
  | .read _, .error (.notFound _ _) => .ok none
  | .read _, .error e => .error (r.getError e)
  | .read _, .ok d => r.receive d
  | .write key _ _, .error e => .error (r.putError key "write" e)
  | .write _ _ _, .ok revision => r.token "write" revision
  | .create key _, .error e => .error (r.putError key "create" e)
  | .create _ _, .ok revision => r.token "create" revision

/-- A call on a store in memory. -/
def serve {a : Access} (r : Remote) (m : ObjectMap) (call : Call a) : Answer a × ObjectMap :=
  let (reply, m) := m.serve (r.request call)
  (r.answer call reply, m)

end Remote

end LeaseQueue.Store
