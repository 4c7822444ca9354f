import LeaseQueue.Proofs.Cluster.Background
import LeaseQueue.Proofs.Queue.Payloads
import Mathlib.Data.List.Chain

/-!
# Revisions

Whatever was stored under a key is a revision of one document.  What engines, elections and brokers
know of it, they know of some revision, and a document that is on its way was made from the one
under the token that it is to replace:

  `Traced R key c hist`

Readers may get back less than what was stored.  A `Recall` says what they can rely on.
-/

namespace LeaseQueue

/-- What a reader gets back of a stored document.  Of a document that is `fit`, a reader gets one
that agrees with it, if anything; passes and registrations keep a document fit. -/
structure Recall where
  fit : Document → Prop
  fits : Mutation → Prop
  agree : Document → Document → Prop
  refl : ∀ d, agree d d
  decode : ∀ {d d'}, fit d → Document.decode d.encode = .ok d' → agree d d'
  fit_of_agree : ∀ {d d'}, fit d → agree d d' → fit d'
  fit_empty : fit .empty
  fit_registerBroker : ∀ {d} address now, fit d → fit (d.registerBroker address now)
  fits_registerBroker : ∀ address timestamp, fits (.registerBroker address timestamp)
  fits_renewBroker : ∀ address timestamp, fits (.renewBroker address timestamp)
  fit_pass : ∀ {d ms} now timeout ids, fit d → (∀ m ∈ ms, fits m) →
    fit (Document.pass d ms now timeout ids).document

namespace Cluster

/-- Bytes that stand for a document: they were made from it, or it is read from them. -/
def Holds (data : Bytes) (d : Document) : Prop := data = d.encode ∨ Document.decode data = .ok d

/-- What was stored under a key at some time. -/
structure Revision where
  entry : Store.Memory.Entry
  document : Document

/-- What a pass of the engine makes of a document for this batch. -/
def Folds (c : Cluster) (e : EngineId) (batch : List Engine.Pending) (d d' : Document) : Prop :=
  ∃ now ids, d' = (d.pass (batch.map (·.mutation)) now (c.engines e).options.heartbeatTimeout
    ids).document

/-- What an attempt to be elected makes of a document, if it finds no leader who is heard of. -/
def Replaces (c : Cluster) (election : Election) (d d' : Document) : Prop :=
  ∃ now, .stood election now ∈ c.log ∧ d' = d.registerBroker election.address now ∧
    (d.broker = none ∨ now.isPast d.brokerHeartbeat election.heartbeatTimeout)

/-- One document made from another: by a pass for a drained batch of some engine, or by an attempt
to be elected. -/
inductive Derived (c : Cluster) (key : String) (d : Document) : Document → Prop
  | pass (e : EngineId) (batch : List Engine.Pending) (now : Millis) (ids : IdSupply)
    (at_key : (c.engines e).options.stateKey = key) (drained : .drained e batch ∈ c.log) :
    Derived c key d (d.pass (batch.map (·.mutation)) now
      (c.engines e).options.heartbeatTimeout ids).document
  | registration (election : Election) (now : Millis) (at_key : election.stateKey = key)
    (stood : .stood election now ∈ c.log) :
    Derived c key d (d.registerBroker election.address now)

variable {R : Recall} {key : String} {c c' : Cluster} {hist hist' : List Revision}

theorem Holds.agree {data : Bytes} {d d' : Document} (h : Holds data d) (hfit : R.fit d)
    (hdecode : Document.decode data = .ok d') : R.agree d d' := by
  rcases h with rfl | hd
  · exact R.decode hfit hdecode
  · rw [hd] at hdecode
    cases hdecode
    exact R.refl d

/-! ## What the parts of a cluster know -/

/-- A token together with a document that a reader of this revision may have got. -/
def Known (R : Recall) (hist : List Revision) (token : Store.Token) (d : Document) : Prop :=
  ∃ r ∈ hist, token = toString r.entry.version ∧ R.agree r.document d ∧ R.fit d

structure Informed (R : Recall) (key : String) (hist : List Revision) (e : Engine) : Prop where
  cache : e.options.stateKey = key → ∀ cached, e.cache = some cached →
    Known R hist cached.token cached.document
  buffer : ∀ p ∈ e.buffer, R.fits p.mutation

/-- A batch that was drained, of mutations that are fit. -/
def PassKnown (R : Recall) (c : Cluster) (e : EngineId) (batch : List Engine.Pending) : Prop :=
  (∀ p ∈ batch, R.fits p.mutation) ∧ .drained e batch ∈ c.log

/-- A document about to be stored over the one under `expected`. -/
def Successor (R : Recall) (hist : List Revision) (expected : Store.Token)
    (makes : Document → Document → Prop) (document : Document) : Prop :=
  ∃ d, Known R hist expected d ∧ makes d document ∧ R.fit document

def CommitKnown (R : Recall) (key : String) (c : Cluster) (hist : List Revision) (e : EngineId)
    {a : Store.Access} : Engine.Commit a → Prop
  | .reading pass => PassKnown R c e pass.batch
  | .writing pass document _ expected =>
    PassKnown R c e pass.batch ∧ ((c.engines e).options.stateKey = key →
      Successor R hist expected (Folds c e pass.batch) document)

def AttemptKnown (R : Recall) (key : String) (c : Cluster) (hist : List Revision)
    (election : Election) {a : Store.Access} : Election.Attempt a → Prop
  | .looking now => .stood election now ∈ c.log
  | .founding document => ∃ now, document = Document.withBroker election.address now
  | .takingOver document expected =>
    election.stateKey = key → Successor R hist expected (Replaces c election) document

/-- Puts nothing under the key. -/
def Spares (key : String) {a : Store.Access} : Store.Call a → Prop
  | .read _ => True
  | .write k _ _ => k ≠ key
  | .create k _ => k ≠ key

def CallerKnown (R : Recall) (key : String) (c : Cluster) (hist : List Revision)
    {a : Store.Access} : Caller a → Prop
  | .start _ _ => True
  | .commit e _ point => CommitKnown R key c hist e point
  | .election election attempt => AttemptKnown R key c hist election attempt
  | .broker b (.electing _ attempt) =>
    AttemptKnown R key c hist (c.seats b).options.election attempt
  | .broker _ (.opening _ _) => True
  | .beat _ _ => True
  | .client call => Spares key call

def attemptDocument? {a : Store.Access} : Election.Attempt a → Option Document
  | .looking _ => none
  | .founding document => some document
  | .takingOver document _ => some document

def startDocument? {a : Store.Access} : Engine.Startup a → Option Document
  | .creating _ => some .empty
  | .reading _ => none

def commitDocument? {a : Store.Access} : Engine.Commit a → Option Document
  | .reading _ => none
  | .writing _ document _ _ => some document

/-- What the put of a caller makes of the document that it replaces. -/
def Makes (c : Cluster) {a : Store.Access} : Caller a → Document → Document → Prop
  | .commit e _ point => Folds c e point.pass.batch
  | .election election _ => Replaces c election
  | .broker b (.electing _ _) => Replaces c (c.seats b).options.election
  | _ => fun _ _ => False

/-- The document that a call is to store. -/
def Caller.document? {a : Store.Access} : Caller a → Option Document
  | .start _ point => startDocument? point
  | .commit _ _ point => commitDocument? point
  | .election _ attempt => attemptDocument? attempt
  | .broker _ (.electing _ attempt) => attemptDocument? attempt
  | .broker _ (.opening _ point) => startDocument? point
  | .beat _ _ => none
  | .client _ => none

/-- An answer brings a revision: the one that was read, or the one that was stored. -/
def Brings (key : String) (hist : List Revision) (document : Option Document)
    {a : Store.Access} : Store.Call a → Store.Answer a → Prop
  | .read k, answer => k = key → ∀ object, answer = .ok (some object) →
    ∃ r ∈ hist, object = r.entry.toObject
  | .write k _ _, answer => k = key → ∀ token, answer = .ok token → ∀ d, document = some d →
    ∃ r ∈ hist, token = toString r.entry.version ∧ r.document = d
  | .create k _, answer => k = key → ∀ token, answer = .ok token → ∀ d, document = some d →
    ∃ r ∈ hist, token = toString r.entry.version ∧ r.document = d

def ProcKnown (R : Recall) (key : String) (c : Cluster) (hist : List Revision) : Proc → Prop
  | .awaiting caller (.sent _) => CallerKnown R key c hist caller
  | .awaiting caller (.landed answer) =>
    CallerKnown R key c hist caller ∧ Brings key hist caller.document? (c.callOf caller) answer
  | .loop e _ (.backingOff pass) => PassKnown R c e pass.batch
  | _ => True

/-- A revision whose document was made from what a reader may get of another's. -/
def Succeeds (R : Recall) (key : String) (c : Cluster) (new old : Revision) : Prop :=
  ∃ d, R.agree old.document d ∧ Derived c key d new.document

structure Traced (R : Recall) (key : String) (c : Cluster) (hist : List Revision) : Prop where
  outfitted : c.Outfitted
  current : c.memory.entry? key = (hist.map (·.entry)).head?
  falling : hist.Pairwise fun new old => old.entry.version < new.entry.version
  bounded : ∀ r ∈ hist, r.entry.version ≤ c.memory.lastVersion
  holds : ∀ r ∈ hist, Holds r.entry.data r.document ∧ R.fit r.document
  chain : hist.IsChain (Succeeds R key c)
  engines : ∀ e, Informed R key hist (c.engines e)
  procs : ∀ q ∈ c.procs, ProcKnown R key c hist q

/-! ## What is known stays known -/

theorem Known.mono {token : Store.Token} {d : Document} (h : Known R hist token d)
    (hhist : hist ⊆ hist') : Known R hist' token d := by
  obtain ⟨r, hr, hknown⟩ := h
  exact ⟨r, hhist hr, hknown⟩

theorem Informed.of_uncached {e : Engine} (hcache : e.cache = none)
    (hbuffer : ∀ p ∈ e.buffer, R.fits p.mutation) : Informed R key hist e where
  cache _ cached hcached := by
    rw [hcache] at hcached
    cases hcached
  buffer := hbuffer

theorem Informed.mono {e : Engine} (h : Informed R key hist e) (hhist : hist ⊆ hist') :
    Informed R key hist' e :=
  ⟨fun hkey cached hcached => (h.cache hkey cached hcached).mono hhist, h.buffer⟩

theorem Derived.mono {d d' : Document} (h : Derived c key d d') (hlog : c.log ⊆ c'.log)
    (hoptions : c'.options = c.options) : Derived c' key d d' := by
  cases h with
  | pass e batch now ids hkey hdrained =>
    rw [← engine_options_eq hoptions] at hkey ⊢
    exact .pass e batch now ids hkey (hlog hdrained)
  | registration election now hkey hstood => exact .registration election now hkey (hlog hstood)

theorem Succeeds.mono {new old : Revision} (h : Succeeds R key c new old)
    (hlog : c.log ⊆ c'.log) (hoptions : c'.options = c.options) : Succeeds R key c' new old := by
  obtain ⟨d, hagree, hderived⟩ := h
  exact ⟨d, hagree, hderived.mono hlog hoptions⟩

theorem Folds.mono {e : EngineId} {batch : List Engine.Pending} {d d' : Document}
    (h : Folds c e batch d d') (hoptions : c'.options = c.options) : Folds c' e batch d d' := by
  rwa [Folds, engine_options_eq hoptions]

theorem Replaces.mono {election : Election} {d d' : Document} (h : Replaces c election d d')
    (hlog : c.log ⊆ c'.log) : Replaces c' election d d' := by
  obtain ⟨now, hstood, hmakes⟩ := h
  exact ⟨now, hlog hstood, hmakes⟩

theorem Successor.mono {expected : Store.Token} {makes makes' : Document → Document → Prop}
    {d : Document} (h : Successor R hist expected makes d)
    (hmakes : ∀ d₀, makes d₀ d → makes' d₀ d) (hhist : hist ⊆ hist') :
    Successor R hist' expected makes' d := by
  obtain ⟨d₀, hknown, hmade, hfit⟩ := h
  exact ⟨d₀, hknown.mono hhist, hmakes d₀ hmade, hfit⟩

theorem PassKnown.mono {e : EngineId} {batch : List Engine.Pending} (h : PassKnown R c e batch)
    (hlog : c.log ⊆ c'.log) : PassKnown R c' e batch := ⟨h.1, hlog h.2⟩

theorem AttemptKnown.mono {election : Election} {a : Store.Access} {attempt : Election.Attempt a}
    (h : AttemptKnown R key c hist election attempt) (hlog : c.log ⊆ c'.log)
    (hhist : hist ⊆ hist') : AttemptKnown R key c' hist' election attempt := by
  cases attempt with
  | looking now => exact hlog h
  | founding document => exact h
  | takingOver document expected =>
    exact fun hkey => (h hkey).mono (fun _ hmakes => hmakes.mono hlog) hhist

theorem CallerKnown.mono {a : Store.Access} {caller : Caller a}
    (h : CallerKnown R key c hist caller) (hlog : c.log ⊆ c'.log)
    (hoptions : c'.options = c.options) (hhist : hist ⊆ hist') :
    CallerKnown R key c' hist' caller := by
  cases caller with
  | start | beat | client => exact h
  | commit e epoch point =>
    cases point with
    | reading pass => exact PassKnown.mono h hlog
    | writing pass document results expected =>
      refine ⟨h.1.mono hlog, fun hkey => ?_⟩
      rw [engine_options_eq hoptions] at hkey
      exact (h.2 hkey).mono (fun _ hmakes => hmakes.mono hoptions) hhist
  | election election attempt => exact AttemptKnown.mono h hlog hhist
  | broker b point =>
    cases point with
    | electing now attempt =>
      simp only [CallerKnown] at h ⊢
      rw [broker_options_eq hoptions]
      exact AttemptKnown.mono h hlog hhist
    | opening now point => exact h

theorem Brings.mono {document : Option Document} {a : Store.Access} {call : Store.Call a}
    {answer : Store.Answer a} (h : Brings key hist document call answer) (hhist : hist ⊆ hist') :
    Brings key hist' document call answer := by
  cases call with
  | read k =>
    intro hkey object hobject
    obtain ⟨r, hr, heq⟩ := h hkey object hobject
    exact ⟨r, hhist hr, heq⟩
  | write k data expected | create k data =>
    intro hkey token htoken d hd
    obtain ⟨r, hr, heq⟩ := h hkey token htoken d hd
    exact ⟨r, hhist hr, heq⟩

theorem ProcKnown.mono {q : Proc} (h : ProcKnown R key c hist q) (hlog : c.log ⊆ c'.log)
    (hoptions : c'.options = c.options) (hhist : hist ⊆ hist') : ProcKnown R key c' hist' q := by
  cases q with
  | awaiting caller flight =>
    cases flight with
    | sent failure => exact CallerKnown.mono h hlog hoptions hhist
    | landed answer =>
      refine ⟨CallerKnown.mono h.1 hlog hoptions hhist, ?_⟩
      rw [callOf_eq_of_options hoptions]
      exact h.2.mono hhist
  | loop e epoch pause =>
    cases pause with
    | backingOff pass => exact PassKnown.mono h hlog
    | entering | resting | givingWay => trivial
  | registering | renewing | ended => trivial

/-- A step that stores nothing under the key, and of which each part knows what it says. -/
theorem Traced.mono (h : Traced R key c hist) (hoptions : c'.options = c.options)
    (hcurrent : c'.memory.entry? key = c.memory.entry? key)
    (hlast : c.memory.lastVersion ≤ c'.memory.lastVersion) (hlog : c.log ⊆ c'.log)
    (hengines : ∀ e, c'.engines e = c.engines e ∨ Informed R key hist (c'.engines e))
    (hprocs : ∀ q ∈ c'.procs, q ∈ c.procs ∨ ProcKnown R key c' hist q) :
    Traced R key c' hist := by
  refine { h with
    outfitted := h.outfitted.of_options hoptions
    current := hcurrent.trans h.current
    bounded := fun r hr => Nat.le_trans (h.bounded r hr) hlast
    chain := h.chain.imp fun _ _ hstep => hstep.mono hlog hoptions
    engines := ?_
    procs := ?_ }
  · intro e
    rcases hengines e with heq | hnew
    · exact heq ▸ h.engines e
    · exact hnew
  · intro q hq
    rcases hprocs q hq with hold | hnew
    · exact (h.procs q hold).mono hlog hoptions (fun _ => id)
    · exact hnew

/-- A step that lands nothing. -/
theorem Traced.mono_of_background (h : Traced R key c hist)
    (hback : c'.background = c.background) (hlog : c.log ⊆ c'.log)
    (hengines : ∀ e, c'.engines e = c.engines e ∨ Informed R key hist (c'.engines e))
    (hprocs : ∀ q ∈ c'.procs, q ∈ c.procs ∨ ProcKnown R key c' hist q) :
    Traced R key c' hist := by
  have hentries : c'.memory.entries = c.memory.entries := congrArg Background.entries hback
  have hlast : c'.memory.lastVersion = c.memory.lastVersion :=
    congrArg Background.lastVersion hback
  refine h.mono ?_ ?_ (Nat.le_of_eq hlast.symm) hlog hengines hprocs
  · rw [options, options, hback]
  · rw [Store.Memory.entry?, hentries]
    rfl

/-! ## Parts of a step -/

section Parts

variable (h : Traced R key c hist) {i : ProcId} {e : EngineId} {b : BrokerId}

include h

theorem Traced.record (event : Event) (hevent : event.isLanding = false) :
    Traced R key (c.record event) hist := by
  refine h.mono_of_background ?_ (List.subset_cons_self _ _) (fun e => .inl rfl) fun q hq => .inl hq
  simp only [background, Cluster.record, List.filter_cons, hevent]
  rfl

theorem Traced.setEngine {engine : Engine} (hoptions : engine.options = (c.engines e).options)
    (hengine : Informed R key hist engine) : Traced R key (c.setEngine e engine) hist := by
  refine h.mono_of_background (background_setEngine c e engine hoptions) (fun _ => id) ?_
    fun q hq => .inl hq
  intro d
  by_cases hd : d = e
  · subst hd
    rw [engines_setEngine_self]
    exact .inr hengine
  · exact .inl (engines_setEngine_of_ne c hd engine)

theorem Traced.setIds (ids : IdSupply) : Traced R key (c.setIds ids) hist :=
  h.mono_of_background rfl (fun _ => id) (fun _ => .inl rfl) fun _ hq => .inl hq

theorem Traced.setReign (reign : Reign) : Traced R key (c.setReign b reign) hist :=
  h.mono_of_background (background_setReign c b reign) (fun _ => id) (fun _ => .inl rfl)
    fun _ hq => .inl hq

theorem Traced.setProc {q : Proc} (hq : ProcKnown R key c hist q) :
    Traced R key (c.setProc i q) hist := by
  refine h.mono_of_background rfl (fun _ => id) (fun _ => .inl rfl) fun q' hq' => ?_
  rcases List.mem_or_eq_of_mem_set hq' with hold | rfl
  · exact .inl hold
  · exact .inr (hq.mono (fun _ => id) rfl fun _ => id)

theorem Traced.spawn {q : Proc} (hq : ProcKnown R key c hist q) :
    Traced R key (c.spawn q) hist := by
  refine h.mono_of_background rfl (fun _ => id) (fun _ => .inl rfl) fun q' hq' => ?_
  rcases List.mem_append.1 hq' with hold | hnew
  · exact .inl hold
  · rw [List.mem_singleton.1 hnew]
    exact .inr (hq.mono (fun _ => id) rfl fun _ => id)

theorem Traced.settle (settled : List Engine.Settlement) :
    Traced R key (c.settle e settled) hist :=
  h.mono_of_background (background_settle c e settled) (List.subset_append_right _ _)
    (fun _ => .inl rfl)
    fun _ hq => .inl hq

theorem Traced.launch {a : Store.Access} (caller : Caller a)
    (hcaller : CallerKnown R key c hist caller) : Traced R key (c.launch i caller) hist := by
  have hback := background_launch c i caller
  refine h.mono_of_background hback (List.subset_cons_self _ _) (fun _ => .inl rfl) fun q hq => ?_
  rcases List.mem_or_eq_of_mem_set hq with hold | rfl
  · exact .inl hold
  · refine .inr (hcaller.mono (List.subset_cons_self _ _) ?_ fun _ => id)
    rw [options, options, hback]

theorem Traced.begin {a : Store.Access} (caller : Caller a)
    (hcaller : CallerKnown R key c hist caller) : Traced R key (c.begin caller) hist :=
  Traced.launch (h.spawn (q := .ended) trivial) caller (hcaller.mono (fun _ => id) rfl fun _ => id)

theorem Traced.submit {m : Mutation} (hm : R.fits m) : Traced R key (c.submit e m) hist := by
  have htick : Traced R key { c with tickets := c.tickets + 1 } hist :=
    h.mono_of_background rfl (fun _ => id) (fun _ => .inl rfl) fun _ hq => .inl hq
  simp only [Cluster.submit, Engine.submit]
  split
  next heq => exact htick.record _ rfl
  next engine kick heq =>
    split at heq
    · cases heq
    · cases heq
      refine Traced.record (Traced.setEngine htick ?_ ?_) _ ?_
      · rfl
      · refine ⟨(h.engines e).cache, fun p hp => ?_⟩
        rcases List.mem_append.1 hp with hold | hnew
        · exact (h.engines e).buffer p hold
        · rw [List.mem_singleton.1 hnew]
          exact hm
      · rfl

theorem Traced.stopEngine : Traced R key (c.stopEngine e) hist := by
  unfold Cluster.stopEngine
  split
  · exact h
  next engine settled heq =>
    simp only [Engine.stop?] at heq
    split at heq
    · cases heq
    · cases heq
      refine Traced.settle (Traced.setEngine h ?_ ?_) _
      · rfl
      · exact ⟨(h.engines e).cache, List.forall_mem_nil _⟩

theorem Traced.stopBroker : Traced R key (c.stopBroker b) hist := by
  unfold Cluster.stopBroker
  split
  · exact (h.setReign _).stopEngine
  · exact h

end Parts

end Cluster

end LeaseQueue
