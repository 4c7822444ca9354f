import LeaseQueue.Proofs.Cluster.Linearity
import LeaseQueue.Proofs.Cluster.Rosters

/-!
# What a token is good for

Storage in memory lets a write through if its token spells the one that was issued last for the key,
be it with zeros in front or with a plus sign.  No other token is good for anything, in any run:

  `(∀ token ∈ m.before.issued key, ¬ Spells expected token) → m.after.memory = m.before.memory`

It is not enough that nobody was ever given the token, for it may be a new spelling of one that
somebody was given.
-/

namespace LeaseQueue

namespace Store.Memory

/-- A write that is not admitted is a conflict, unless it was to fail anyway. -/
theorem finish_of_not_admits {m : Memory} {key : String} {data : Bytes} {expected : Token}
    (h : ¬ m.Admits (.write key data expected)) (failure : Option Error) :
    m.finish ⟨.write key data expected, failure⟩ = (.error (failure.getD (.conflict key)), m) := by
  cases failure with
  | some cause => rfl
  | none =>
    simp only [finish, serve]
    split
    · rfl
    next e he => exact if_neg fun hversion => h ⟨e, he, hversion⟩

end Store.Memory

namespace Cluster

open Store.Memory (Entry Spells)

/-- The tokens that were issued for the key, the latest first. -/
def issued (c : Cluster) (key : String) : List Store.Token :=
  c.log.filterMap fun event => (event.put? key).map (·.token)

/-- Which tokens let a write through. -/
structure Authority (moments : List Moment) : Prop where
  /-- A token that spells none that was issued for the key is of no use. -/
  unissued : ∀ m ∈ moments, ∀ i caller answer key data expected, m.Answers i caller answer →
    m.before.callOf caller = .write key data expected →
    (∀ token ∈ m.before.issued key, ¬ Spells expected token) →
    m.after.memory = m.before.memory ∧
      ∃ failure, m.before.procs[i]? = some (.awaiting caller (.sent failure)) ∧
        answer = .error (failure.getD (.conflict key))
  /-- Only the latest token lets a write through. -/
  latest : ∀ m ∈ moments, ∀ i caller token key data expected, m.Puts i caller token →
    m.before.callOf caller = .write key data expected →
    ∃ current, (m.before.issued key).head? = some current ∧ Spells expected current
  /-- And it does however it is spelled, as long as versions can be counted. -/
  spelled : ∀ m ∈ moments, ∀ i caller key data expected current, m.act = .land i →
    m.before.procs[i]? = some (.awaiting caller (.sent none)) →
    m.before.callOf caller = .write key data expected →
    (m.before.issued key).head? = some current → Spells expected current →
    m.before.memory.lastVersion < UInt64.size → ∃ token, m.Puts i caller token

variable {c : Cluster} {key : String} {m : Moment} {i : ProcId} {caller : Caller .put}
  {data : Bytes} {expected current : Store.Token}

theorem head?_issued (c : Cluster) (key : String) :
    (c.issued key).head? = (c.latest? key).map (·.token) := by
  rw [issued, latest?, List.head?_filterMap, List.map_findSome?]
  rfl

/-- The latest token that was issued for a key is that of the object. -/
theorem Recorded.head?_issued (h : c.Recorded) (key : String) :
    (c.issued key).head? = (c.memory.entry? key).map fun e => toString e.version := by
  rw [Cluster.head?_issued, ← h key, Option.map_map]
  rfl

theorem Recorded.admits (h : c.Recorded)
    (hadmits : c.memory.Admits (.write key data expected)) :
    ∃ current, (c.issued key).head? = some current ∧ Spells expected current := by
  obtain ⟨e, he, hversion⟩ := hadmits
  refine ⟨toString e.version, ?_, (Store.Memory.parseVersion?_eq_some_iff.1 hversion).1⟩
  rw [h.head?_issued, he, Option.map_some]

/-- **Only the latest token authorises a write**, and it does however it is spelled. -/
theorem authority_run (engines : Nat → Engine.Options) (brokers : BrokerId → Broker.Options)
    (options : Store.Memory.Options) (ids : IdSupply) (clock : Millis) (acts : List Act) :
    Authority
      ((init engines brokers { Store.Memory.empty with options } ids clock).trail acts) := by
  generalize hstart : init engines brokers { Store.Memory.empty with options } ids clock = start
  have hnumbered : start.memory.IsNumbered := hstart ▸ fun key e he => nomatch he
  have hrecorded : ∀ m ∈ start.trail acts, m.before.Recorded :=
    forall_trail (recorded_run (hstart ▸ fun key => rfl))
  refine ⟨?_, ?_, ?_⟩
  · intro m hm i caller answer key data expected hanswers hcall hunissued
    obtain ⟨failure, hq, hanswer⟩ := hanswers.lands
    have hrefused : ¬ m.before.memory.Admits (.write key data expected) := by
      intro hadmits
      obtain ⟨current, hhead, hspells⟩ := (hrecorded m hm).admits hadmits
      exact hunissued current (List.mem_of_head? hhead) hspells
    rw [hcall, Store.Memory.finish_of_not_admits hrefused] at hanswer
    subst hanswer
    exact ⟨hanswers.memory_of_error, failure, hq, rfl⟩
  · intro m hm i caller token key data expected hputs hcall
    exact (hrecorded m hm).admits (hcall ▸ hputs.stored.1)
  · intro m hm i caller key data expected current hact hq hcall hhead hspells hcounted
    rw [(hrecorded m hm).head?_issued] at hhead
    obtain ⟨e, he, rfl⟩ := Option.map_eq_some_iff.1 hhead
    have hversion := isNumbered_of_mem hnumbered hm key e he
    have hadmits : m.before.memory.Admits (.write key data expected) :=
      ⟨e, he, Store.Memory.parseVersion?_eq_some_iff.2 ⟨hspells, by omega⟩⟩
    refine ⟨toString (m.before.memory.lastVersion + 1), hact, none, hq, ?_⟩
    rw [hcall, Store.Memory.finish_of_admits hadmits]
    rfl

/-- Nobody was ever given this token, and yet it replaces the object. -/
theorem overwritten_by_spelling :
    let c := blank.run [.call (.create "key" [1]), .land 0, .call (.write "key" [2] "+01")]
    c.issued "key" = ["1"] ∧
    Moment.Puts ⟨c, .land 1⟩ 1 (.client (.write "key" [2] "+01")) "2" ∧
    (c.memory.entry? "key").map (·.data) = some [1] ∧
    ((c.step (.land 1)).memory.entry? "key").map (·.data) = some [2] :=
  ⟨rfl, ⟨rfl, none, rfl, rfl⟩, rfl, rfl⟩

end Cluster

end LeaseQueue
