import Mathlib.Data.List.Nodup
import Mathlib.Logic.Function.Basic

/-!
# Exclusive holders of numbered resources

Each of `m` resources has a mark.  A party may hold one resource at a time, and
resources may also be kept on a list.  `Exclusive` says that a resource is marked
exactly while somebody has it, and that nobody else has it then.  It is kept by the
four moves of a resource: grabbed, put on the list, taken off it, let go.
-/

namespace Holding

variable {ι : Type*}

structure Exclusive (m : Nat) (marked : Nat → Bool) (holder : ι → Option Nat)
    (kept : List Nat) : Prop where
  small : ∀ i, marked i = true → i < m
  had : ∀ i, marked i = true ↔ (∃ party, holder party = some i) ∨ i ∈ kept
  apart : ∀ first second i, holder first = some i → holder second = some i → first = second
  notKept : ∀ party i, holder party = some i → i ∉ kept
  nodup : kept.Nodup

variable {m : Nat} {marked : Nat → Bool} {holder : ι → Option Nat} {kept : List Nat}

theorem exclusive_none (m : Nat) :
    Exclusive m (fun _ => false) (fun _ : ι => none) [] where
  small _ never := by cases never
  had i := by simp
  apart _ _ _ never := by cases never
  notKept _ _ never := by cases never
  nodup := List.nodup_nil

namespace Exclusive

theorem marked_of_holder (exclusive : Exclusive m marked holder kept) {party : ι} {i : Nat}
    (holds : holder party = some i) : marked i = true :=
  (exclusive.had i).mpr (.inl ⟨party, holds⟩)

theorem marked_of_mem (exclusive : Exclusive m marked holder kept) {i : Nat}
    (member : i ∈ kept) : marked i = true :=
  (exclusive.had i).mpr (.inr member)

variable [DecidableEq ι]

/-- An unmarked resource is grabbed by a party that holds nothing. -/
theorem grab (exclusive : Exclusive m marked holder kept) {party : ι} {i : Nat}
    (inside : i < m) (free : marked i = false) (empty : holder party = none) :
    Exclusive m (fun j => marked j || decide (j = i))
      (Function.update holder party (some i)) kept := by
  have noHolder : ∀ other, holder other ≠ some i := by
    intro other holds
    rw [exclusive.marked_of_holder holds] at free
    cases free
  have notKept : i ∉ kept := by
    intro member
    rw [exclusive.marked_of_mem member] at free
    cases free
  constructor
  · intro j holds
    rcases (Bool.or_eq_true _ _).mp holds with old | new
    · exact exclusive.small j old
    · rw [of_decide_eq_true new]
      exact inside
  · intro j
    rw [Bool.or_eq_true, decide_eq_true_eq, exclusive.had j]
    constructor
    · rintro ((⟨other, holds⟩ | member) | rfl)
      · have different : other ≠ party := by
          rintro rfl
          rw [empty] at holds
          cases holds
        exact .inl ⟨other, by rw [Function.update_of_ne different, holds]⟩
      · exact .inr member
      · exact .inl ⟨party, Function.update_self ..⟩
    · rintro (⟨other, holds⟩ | member)
      · by_cases same : other = party
        · subst same
          rw [Function.update_self, Option.some.injEq] at holds
          exact .inr holds.symm
        · rw [Function.update_of_ne same] at holds
          exact .inl (.inl ⟨other, holds⟩)
      · exact .inl (.inr member)
  · intro first second j holdsFirst holdsSecond
    by_cases sameFirst : first = party <;> by_cases sameSecond : second = party
    · rw [sameFirst, sameSecond]
    · subst sameFirst
      rw [Function.update_self, Option.some.injEq] at holdsFirst
      rw [Function.update_of_ne sameSecond, ← holdsFirst] at holdsSecond
      exact absurd holdsSecond (noHolder second)
    · subst sameSecond
      rw [Function.update_self, Option.some.injEq] at holdsSecond
      rw [Function.update_of_ne sameFirst, ← holdsSecond] at holdsFirst
      exact absurd holdsFirst (noHolder first)
    · rw [Function.update_of_ne sameFirst] at holdsFirst
      rw [Function.update_of_ne sameSecond] at holdsSecond
      exact exclusive.apart first second j holdsFirst holdsSecond
  · intro other j holds
    by_cases same : other = party
    · subst same
      rw [Function.update_self, Option.some.injEq] at holds
      rw [← holds]
      exact notKept
    · rw [Function.update_of_ne same] at holds
      exact exclusive.notKept other j holds
  · exact exclusive.nodup

/-- After a party has let its resource go, the others hold what they held. -/
theorem release_iff (exclusive : Exclusive m marked holder kept) {party : ι} {i : Nat}
    (holds : holder party = some i) (j : Nat) :
    (∃ other, Function.update holder party none other = some j) ↔
      (∃ other, holder other = some j) ∧ j ≠ i := by
  constructor
  · rintro ⟨other, has⟩
    have different : other ≠ party := by
      rintro rfl
      rw [Function.update_self] at has
      cases has
    rw [Function.update_of_ne different] at has
    refine ⟨⟨other, has⟩, ?_⟩
    rintro rfl
    exact different (exclusive.apart other party j has holds)
  · rintro ⟨⟨other, has⟩, different⟩
    refine ⟨other, ?_⟩
    rw [Function.update_of_ne, has]
    rintro rfl
    rw [holds, Option.some.injEq] at has
    exact different has.symm

theorem release_eq {party other : ι} {j : Nat}
    (has : Function.update holder party none other = some j) : holder other = some j := by
  have different : other ≠ party := by
    rintro rfl
    rw [Function.update_self] at has
    cases has
  rwa [Function.update_of_ne different] at has

/-- A party puts what it holds on the list. -/
theorem keep (exclusive : Exclusive m marked holder kept) {party : ι} {i : Nat}
    (holds : holder party = some i) :
    Exclusive m marked (Function.update holder party none) (kept ++ [i]) := by
  constructor
  · exact exclusive.small
  · intro j
    rw [exclusive.had j, exclusive.release_iff holds, List.mem_append, List.mem_singleton]
    by_cases same : j = i
    · subst same
      simp only [ne_eq, not_true, and_false, or_true, iff_true]
      exact .inl ⟨party, holds⟩
    · simp [same]
  · intro first second j holdsFirst holdsSecond
    exact exclusive.apart first second j (release_eq holdsFirst) (release_eq holdsSecond)
  · intro other j has member
    rcases List.mem_append.mp member with old | new
    · exact exclusive.notKept other j (release_eq has) old
    · rw [List.mem_singleton] at new
      exact ((exclusive.release_iff holds j).mp ⟨other, has⟩).2 new
  · apply List.Nodup.append exclusive.nodup (List.nodup_singleton i)
    rw [List.disjoint_singleton]
    exact exclusive.notKept party i holds

/-- A party that holds nothing takes a resource off the list. -/
theorem unkeep (exclusive : Exclusive m marked holder kept) {party : ι} {i place : Nat}
    (present : kept[place]? = some i) (empty : holder party = none) :
    Exclusive m marked (Function.update holder party (some i)) (kept.eraseIdx place) := by
  obtain ⟨inside, value⟩ := List.getElem?_eq_some_iff.mp present
  have erased : ∀ j, j ∈ kept.eraseIdx place ↔ j ∈ kept ∧ j ≠ i := by
    intro j
    rw [← exclusive.nodup.erase_getElem place inside, value, exclusive.nodup.mem_erase_iff,
      and_comm]
  have member : i ∈ kept := List.mem_of_getElem? present
  constructor
  · exact exclusive.small
  · intro j
    rw [exclusive.had j, erased]
    constructor
    · rintro (⟨other, has⟩ | has)
      · left
        refine ⟨other, ?_⟩
        rw [Function.update_of_ne, has]
        rintro rfl
        rw [empty] at has
        cases has
      · by_cases same : j = i
        · subst same
          exact .inl ⟨party, Function.update_self ..⟩
        · exact .inr ⟨has, same⟩
    · rintro (⟨other, has⟩ | has)
      · by_cases same : other = party
        · subst same
          rw [Function.update_self, Option.some.injEq] at has
          rw [← has]
          exact .inr member
        · rw [Function.update_of_ne same] at has
          exact .inl ⟨other, has⟩
      · exact .inr has.1
  · intro first second j holdsFirst holdsSecond
    by_cases sameFirst : first = party <;> by_cases sameSecond : second = party
    · rw [sameFirst, sameSecond]
    · subst sameFirst
      rw [Function.update_self, Option.some.injEq] at holdsFirst
      rw [Function.update_of_ne sameSecond, ← holdsFirst] at holdsSecond
      exact absurd member (exclusive.notKept second i holdsSecond)
    · subst sameSecond
      rw [Function.update_self, Option.some.injEq] at holdsSecond
      rw [Function.update_of_ne sameFirst, ← holdsSecond] at holdsFirst
      exact absurd member (exclusive.notKept first i holdsFirst)
    · rw [Function.update_of_ne sameFirst] at holdsFirst
      rw [Function.update_of_ne sameSecond] at holdsSecond
      exact exclusive.apart first second j holdsFirst holdsSecond
  · intro other j has
    rw [erased]
    by_cases same : other = party
    · subst same
      rw [Function.update_self, Option.some.injEq] at has
      simp [has]
    · rw [Function.update_of_ne same] at has
      exact fun there => exclusive.notKept other j has there.1
  · exact exclusive.nodup.eraseIdx place

/-- A party lets its resource go and clears the mark. -/
theorem letGo (exclusive : Exclusive m marked holder kept) {party : ι} {i : Nat}
    (holds : holder party = some i) :
    Exclusive m (fun j => marked j && decide (j ≠ i)) (Function.update holder party none)
      kept := by
  constructor
  · intro j still
    exact exclusive.small j ((Bool.and_eq_true _ _).mp still).1
  · intro j
    rw [Bool.and_eq_true, decide_eq_true_eq, exclusive.had j, exclusive.release_iff holds]
    constructor
    · rintro ⟨has | member, different⟩
      · exact .inl ⟨has, different⟩
      · exact .inr member
    · rintro (⟨has, different⟩ | member)
      · exact ⟨.inl has, different⟩
      · refine ⟨.inr member, ?_⟩
        rintro rfl
        exact exclusive.notKept party j holds member
  · intro first second j holdsFirst holdsSecond
    exact exclusive.apart first second j (release_eq holdsFirst) (release_eq holdsSecond)
  · intro other j has
    exact exclusive.notKept other j (release_eq has)
  · exact exclusive.nodup

end Exclusive

end Holding
