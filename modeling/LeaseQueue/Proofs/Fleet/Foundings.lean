import LeaseQueue.Proofs.Cluster.Contests
import LeaseQueue.Proofs.Fleet.Candidates
import LeaseQueue.Proofs.Store.Failures

/-!
# Conflicts of those who found nothing

Whoever stands for election and finds no document creates one.  If that conflicts at an object store
which says that an object is in the way only where one is present, then somebody else has put one
there since:

  `∃ w, [l, w, m].Sublist trail ∧ Arises (r.server store) present w i path`

The exception is a store that says of the create itself that something is missing.  All other
failures of the store are told as failures.
-/

namespace LeaseQueue.Fleet

open Cluster (BrokerId ProcId)

variable {σ : Type}

/-- Somebody else than the process puts an object under the path. -/
structure Arises (server : Store.Server σ) (present : σ → String → Prop) (w : Moment σ) (i : ProcId)
    (path : String) : Prop where
  absent : ¬ present w.before.state path
  present : present (w.after (step server)).state path
  other : w.act ≠ .move (.land i)

/-- The create by which an attempt goes on that has found nothing. -/
def creation (election : Election) (now : Millis) : Store.Call .put :=
  .create election.stateKey (Document.withBroker election.address now).encode

/-- How an attempt that found nothing at `l` has come out, after its create at `m`. -/
structure Founding (r : Store.Remote) (store : Store.ObjectStore σ) (present : σ → String → Prop)
    (moments : List (Moment σ)) (l m : Moment σ) (i : ProcId) (election : Election) (now : Millis)
    (outcome : Election.Outcome) : Prop where
  lands : ∃ answer, Lands (r.server store) m i election
    (.founding (Document.withBroker election.address now)) answer
  conflict : outcome = .ok .conflict →
    present m.before.state (r.path election.stateKey) ∧
      (¬ present (l.after (step (r.server store))).state (r.path election.stateKey) →
        ∃ w, [l, w, m].Sublist moments ∧
          Arises (r.server store) present w i (r.path election.stateKey)) ∨
    r.Misses store m.before.state (creation election now)
  failure : ∀ cause,
    (store.reply m.before.state (r.request (creation election now))).1 = .error cause →
    ¬ cause.IsRefusal → outcome = .error (.storage (.backend r.name "create" cause.message))

/-- What the outcomes of elections say about the objects of a store. -/
structure Founded (r : Store.Remote) (store : Store.ObjectStore σ) (present : σ → String → Prop)
    (brokers : BrokerId → Broker.Options) (start : Fleet σ) (acts : List (Act σ)) : Prop where
  create : ∀ (s : σ) (key : String) (data : Bytes) (found : String),
    ((r.server store).answer s (.create key data)).1 = .error (.conflict found) →
    present s (r.path key) ∨ r.Misses store s (.create key data)
  decided : ∀ d ∈ start.trail (r.server store) acts, ∀ i election outcome,
    Decides d i election outcome →
    ∀ l ∈ start.trail (r.server store) acts, ∀ now,
      Lands (r.server store) l i election (.looking now) (.ok none) →
      ∃ m, [l, m, d].Sublist (start.trail (r.server store) acts) ∧
        Founding r store present (start.trail (r.server store) acts) l m i election now outcome
  /-- What is known of an election has been decided. -/
  known : ∀ election outcome who,
    (start.run (r.server store) acts).cluster.Announces brokers election outcome who →
    ∃ i, ∃ d ∈ start.trail (r.server store) acts,
      Decides d i election outcome ∧ d.before.cluster.StandsFor i who
  /-- Whatever goes against an attempt is known at once. -/
  told : ∀ d ∈ start.trail (r.server store) acts, ∀ i election outcome who,
    Decides d i election outcome → d.before.cluster.StandsFor i who →
    outcome ≠ .ok .elected ∧ outcome ≠ .ok .alreadyLeader →
    (d.after (step (r.server store))).cluster.Announces brokers election outcome who

variable {r : Store.Remote} {store : Store.ObjectStore σ} {server : Store.Server σ}
  {present : σ → String → Prop} {f start : Fleet σ} {acts : List (Act σ)} {l m w d : Moment σ}
  {i : ProcId} {who : Option BrokerId} {election : Election} {now : Millis}
  {outcome : Election.Outcome} {path : String}

/-! ## Between a look and a put -/

/-- A process does nothing to the server between its look and its put. -/
theorem state_of_between {attempt : Election.Attempt .put} {found : Store.Answer .read}
    {answer : Store.Answer .put} (horder : [l, w, m].Sublist (start.trail server acts))
    (looks : Lands server l i election (.looking now) found)
    (lands : Lands server m i election attempt answer) (hact : w.act = .move (.land i)) :
    (w.after (step server)).state = w.before.state := by
  have hlw := course_le_of_sublist ((List.sublist_append_left [l, w] [m]).trans horder) i
  have hwm := course_le_of_sublist ((List.sublist_cons_self l [w, m]).trans horder) i
  obtain ⟨failure, hstands⟩ := lands.stands
  have hlook : 2 ≤ w.before.cluster.course i := by
    rw [Cluster.course_of_standing looks.after] at hlw
    exact hlw
  have hput : (w.after (step server)).cluster.course i ≤ 3 := by
    rw [Cluster.course_of_standing hstands] at hwm
    cases attempt <;> exact hwm
  have hcourse := course_step server w.before w.act i
  change _ ≤ (w.after (step server)).cluster.course i at hcourse
  cases w.before.fleetStep server w.act with
  | @lands j a caller failure hland hq hstep =>
    obtain rfl : i = j := by
      have heq := hact.symm.trans hland
      cases heq
      rfl
    cases hstanding : w.before.cluster.standing? i with
    | none =>
      have := Cluster.course_of_none hstanding
      omega
    | some s =>
      obtain ⟨stood, attempt', flight⟩ := s
      obtain ⟨caller', hq', -⟩ := Cluster.exists_caller hstanding
      cases hq.symm.trans hq'
      have hlands : Lands server w i stood attempt' _ := ⟨hact, ⟨_, hstanding⟩, rfl⟩
      have hbefore := Cluster.course_of_standing hstanding
      have hafter := Cluster.course_of_standing hlands.after
      cases attempt' <;> simp only [Cluster.Standing.rank] at hbefore hafter <;> omega
  | moves hmove hne _ => exact absurd (Act.move.inj (hmove.symm.trans hact)) (hne i)
  | rests _ hstate =>
    rcases hstate with hsame | ⟨state, hintrude⟩
    · exact hsame
    · cases hact.symm.trans hintrude

/-- What is present at the put and was not after the look, somebody else has put there. -/
theorem exists_arises {attempt : Election.Attempt .put} {found : Store.Answer .read}
    {answer : Store.Answer .put} (horder : [l, m].Sublist (start.trail server acts))
    (looks : Lands server l i election (.looking now) found)
    (lands : Lands server m i election attempt answer)
    (hpresent : present m.before.state path)
    (habsent : ¬ present (l.after (step server)).state path) :
    ∃ w, [l, w, m].Sublist (start.trail server acts) ∧ Arises server present w i path := by
  obtain ⟨between, hbetween, hextend⟩ := Run.exists_between horder
  rw [hbetween] at hpresent
  obtain hfirst | ⟨w, hw, hbefore, hafter⟩ := Run.exists_moment
    (P := fun f : Fleet σ => present f.state path)
    (Q := fun w => ¬ present w.before.state path ∧ present (w.after (step server)).state path)
    (fun w hafter => (Classical.em _).imp_right fun hbefore => ⟨hbefore, hafter⟩) hpresent
  · exact absurd hfirst habsent
  · refine ⟨w, hextend w hw, hbefore, hafter, fun hact => hbefore ?_⟩
    rw [state_of_between (hextend w hw) looks lands hact] at hafter
    exact hafter

/-! ## What becomes known -/

theorem announces_step {act : Act σ}
    (h : (f.step server act).cluster.Announces f.cluster.options.2 election outcome who) :
    f.cluster.Announces f.cluster.options.2 election outcome who ∨
      ∃ i, Decides ⟨f, act⟩ i election outcome ∧ f.cluster.StandsFor i who := by
  cases f.fleetStep server act with
  | lands _ _ hstep =>
    rw [hstep] at h
    exact .inl (Cluster.announces_landed h)
  | moves hact _ hstep =>
    rw [hstep] at h
    exact (Cluster.announces_step h).imp_right fun ⟨i, hproceed, hresolves, hwho⟩ =>
      ⟨i, ⟨hact.trans (congrArg Act.move hproceed), hresolves⟩, hwho⟩
  | rests hcluster =>
    rw [hcluster] at h
    exact .inl h

theorem announces_run (start : Fleet σ)
    (h : (start.run server acts).cluster.Announces start.cluster.options.2 election outcome who) :
    start.cluster.Announces start.cluster.options.2 election outcome who ∨
      ∃ d ∈ start.trail server acts, ∃ i,
        Decides d i election outcome ∧ d.before.cluster.StandsFor i who := by
  refine Run.exists_moment (P := fun f : Fleet σ =>
    f.cluster.Announces f.cluster.options.2 election outcome who) (fun d hafter => ?_) ?_
  · have hoptions := d.before.options_step server d.act
    rw [Run.Moment.after, hoptions] at hafter
    exact announces_step hafter
  · have hoptions := start.options_run server acts
    rw [run] at hoptions h
    rwa [hoptions]

theorem Decides.announces (server : Store.Server σ) (h : Decides d i election outcome)
    (hwho : d.before.cluster.StandsFor i who)
    (hlost : outcome ≠ .ok .elected ∧ outcome ≠ .ok .alreadyLeader) :
    (d.after (step server)).cluster.Announces d.before.cluster.options.2 election outcome who := by
  rw [Run.Moment.after, h.act]
  exact h.resolves.announces hwho hlost

/-! ## Every attempt that found nothing -/

/-- An attempt that found nothing is decided by its create. -/
theorem Decides.creates (hstart : start.cluster.procs = []) (hd : d ∈ start.trail server acts)
    (h : Decides d i election outcome) (hl : l ∈ start.trail server acts)
    (looks : Lands server l i election (.looking now) (.ok none)) :
    ∃ m answer, [l, m, d].Sublist (start.trail server acts) ∧
      Lands server m i election (.founding (Document.withBroker election.address now)) answer ∧
      outcome = Election.verdict answer := by
  have hsame {l' : Moment σ} {now' : Millis} {found : Store.Answer .read}
      (hl' : l' ∈ start.trail server acts)
      (looks' : Lands server l' i election (.looking now') found) :
      l' = l ∧ now' = now ∧ found = .ok none := by
    obtain rfl := looks'.unique hl' hl looks
    cases looks'.after.symm.trans looks.after
    exact ⟨rfl, rfl, rfl⟩
  rcases h.cases hstart hd with ⟨l', hl', now', found, looks', hdone⟩ |
    ⟨l', m, now', found, attempt, answer, hsub, looks', aims, lands, hverdict⟩
  · obtain ⟨-, -, rfl⟩ := hsame hl' looks'
    cases hdone
  · obtain ⟨rfl, rfl, rfl⟩ := hsame (hsub.subset List.mem_cons_self) looks'
    cases aims
    exact ⟨m, answer, hsub, lands, hverdict⟩

theorem founding_of_lands (hfrank : store.Frank present)
    (horder : [l, m].Sublist (start.trail (r.server store) acts))
    (looks : Lands (r.server store) l i election (.looking now) (.ok none))
    {answer : Store.Answer .put} (lands : Lands (r.server store) m i election
      (.founding (Document.withBroker election.address now)) answer) :
    Founding r store present (start.trail (r.server store) acts) l m i election now
      (Election.verdict answer) where
  lands := ⟨answer, lands⟩
  conflict hconflict := by
    obtain ⟨key, rfl⟩ := Cluster.verdict_eq_conflict hconflict
    refine (Store.Remote.present_or_misses hfrank lands.answered).imp_left fun hpresent => ?_
    exact ⟨hpresent, exists_arises horder looks lands hpresent⟩
  failure cause hreply hrefusal := by
    have hanswer := lands.answered.symm.trans
      (Store.Remote.answer_of_not_isRefusal hreply hrefusal)
    rw [hanswer]
    rfl

/-- **Who found nothing and lost was beaten by somebody else**, unless the store missed something,
and hears of every other failure. -/
theorem founded_run (r : Store.Remote) (store : Store.ObjectStore σ)
    (present : σ → String → Prop) (engines : Nat → Engine.Options)
    (brokers : BrokerId → Broker.Options) (ids : IdSupply) (clock : Millis) (state : σ)
    (acts : List (Act σ)) (hfrank : store.Frank present) :
    Founded r store present brokers (init engines brokers ids clock state) acts where
  create s key data found := Store.Remote.present_or_misses hfrank
  decided d hd i election outcome hdecides l hl now looks := by
    obtain ⟨m, answer, hsub, lands, rfl⟩ := hdecides.creates rfl hd hl looks
    have horder := (List.sublist_append_left [l, m] [d]).trans hsub
    exact ⟨m, hsub, founding_of_lands hfrank horder looks lands⟩
  known election outcome who h := by
    rcases announces_run (init engines brokers ids clock state) h with
      hfirst | ⟨d, hd, i, hdecides, hwho⟩
    · cases hfirst with
      | returned hlog => cases hlog
      | denied _ _ hreign => cases hreign
    · exact ⟨i, d, hd, hdecides, hwho⟩
  told d hd i election outcome who hdecides hwho hlost := by
    have hannounces := hdecides.announces (r.server store) hwho hlost
    obtain ⟨earlier, -, -, hbefore⟩ := Run.mem_trail.1 hd
    rw [hbefore, ← run, options_run] at hannounces
    exact hannounces

/-! ## A race, and a store that misses something -/

def folder : Store.Remote := ⟨"s3", some "jobs", .entityTag⟩

def rival (address : String) : Election := ⟨address, "queue.json", Election.defaultTimeout⟩

def candidate (b : BrokerId) : Broker.Options :=
  ⟨toString b, 3000, Election.defaultTimeout, ⟨"queue.json", 50, 30000, 50, 5⟩⟩

def field {σ : Type} (state : σ) : Fleet σ :=
  init (fun _ => .standard) candidate ⟨toString, 0⟩ 0 state

/-- Two find no document, and then both create one. -/
def foundingRace {σ : Type} : List (Act σ) :=
  [.move (.elect (rival "b:1") 0), .move (.startBroker 1), .move (.land 0), .move (.land 1),
    .move (.proceed 0), .move (.proceed 1), .move (.land 0), .move (.land 1), .move (.proceed 1),
    .move (.proceed 0)]

def ring : Store.Server Store.ObjectMap := folder.server Store.ObjectMap.objectStore

/-- The broker is about to look. -/
theorem standing?_looking :
    ((field .empty).run ring (foundingRace.take 3)).cluster.standing? 1 =
      some ⟨(candidate 1).election, .looking 0, .sent none⟩ := rfl

/-- The broker's create has been refused. -/
theorem standing?_founding :
    ((field .empty).run ring (foundingRace.take 8)).cluster.standing? 1 =
      some ⟨(candidate 1).election, .founding (Document.withBroker "1" 0),
        .landed (.error (.conflict "queue.json"))⟩ := rfl

theorem founded_race :
    let present (m : Store.ObjectMap) (path : String) : Prop := (m.entry? path).isSome
    let moments := (field .empty).trail ring foundingRace
    Store.ObjectMap.objectStore.Frank present ∧
    Founded folder Store.ObjectMap.objectStore present candidate (field .empty) foundingRace ∧
    (∃ l ∈ moments, Lands ring l 1 (candidate 1).election (.looking 0) (.ok none)) ∧
    ∃ d ∈ moments, Decides d 1 (candidate 1).election (.ok .conflict) := by
  intro present moments
  let look : Moment Store.ObjectMap :=
    ⟨(field .empty).run ring (foundingRace.take 3), .move (.land 1)⟩
  let decision : Moment Store.ObjectMap :=
    ⟨(field .empty).run ring (foundingRace.take 8), .move (.proceed 1)⟩
  have hlook : look ∈ moments :=
    Run.mem_trail.2 ⟨foundingRace.take 3, foundingRace.drop 4, rfl, rfl⟩
  have hdecision : decision ∈ moments :=
    Run.mem_trail.2 ⟨foundingRace.take 8, foundingRace.drop 9, rfl, rfl⟩
  have hstate : look.before.state = .empty := rfl
  have looks : Lands ring look 1 (candidate 1).election (.looking 0) (.ok none) :=
    ⟨rfl, ⟨none, standing?_looking⟩, by rw [hstate]; rfl⟩
  have hdecides : Decides decision 1 (candidate 1).election (.ok .conflict) :=
    ⟨rfl, .put, _, _, standing?_founding, rfl⟩
  refine ⟨Store.ObjectMap.frank, ?_, ⟨look, hlook, looks⟩, decision, hdecision, hdecides⟩
  exact founded_run folder _ present (fun _ => .standard) candidate ⟨toString, 0⟩ 0 .empty
    foundingRace Store.ObjectMap.frank

/-- Nothing can be put, because there is nothing to put it into. -/
def missing : Store.ObjectStore Unit where
  reply
    | _, .get path => (.error (.notFound path "no such bucket"), ())
    | _, .put path _ _ => (.error (.notFound path "no such bucket"), ())

/-- Two attempts are told of a conflict where no object ever was. -/
theorem conflict_without_object :
    let f := (field ()).run (folder.server missing) foundingRace
    missing.Frank (fun _ _ => False) ∧
    ((folder.server missing).answer () (.create "queue.json" [])).1 =
      .error (.conflict "queue.json") ∧
    f.cluster.Announces candidate (rival "b:1") (.ok .conflict) none ∧
    (f.cluster.seats 1).reign = .failed .electionConflict := by
  intro f
  have hlog : f.cluster.log[0]? = some (.elected (rival "b:1") (.ok .conflict)) := rfl
  refine ⟨?_, rfl, .returned (List.mem_of_getElem? hlog), rfl⟩
  rintro s path data cause ⟨⟩ hclash
  cases hclash

end LeaseQueue.Fleet
