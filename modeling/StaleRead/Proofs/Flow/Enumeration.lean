import Mathlib.Data.List.Nodup
import StaleRead.Proofs.Flow.Closure

/-! # The order in which callers are listed

Closing adds each read to a set of methods, and a set may be listed in any order. The list
of all reads shows that order, the reads of one method do not: a method inherits at most
one read from each read that was there, so those that it inherits come in the order of
these (`Flow.readsOfMethod_closeVia`). What is new of them is put behind the reads that the
method had, each in its first place. The count is that of all new reads, which two orders
list differently but completely. So whoever asks for the count and for the reads of a
method cannot tell the orders apart (`Flow.closeVia_eq_of_lists`).
-/

namespace StaleRead

section FirstOccurrences

variable {α β : Type} [DecidableEq α]

/-- Induction along the first occurrences in a list: behind the first value, its copies
are dropped. -/
theorem eraseDups_induction {motive : List α → Prop} (nil : motive [])
    (cons : ∀ value rest, motive (rest.filter (!· == value)) → motive (value :: rest))
    (values : List α) : motive values :=
  match values with
  | [] => nil
  | value :: rest => cons value rest (eraseDups_induction nil cons (rest.filter (!· == value)))
termination_by values.length
decreasing_by exact Nat.lt_succ_of_le (List.length_filter_le _ _)

theorem nodup_eraseDups (values : List α) : values.eraseDups.Nodup := by
  induction values using eraseDups_induction with
  | nil => exact List.nodup_nil
  | cons value rest ih =>
      rw [List.eraseDups_cons, List.nodup_cons]
      refine ⟨fun again => ?_, ih⟩
      simpa using List.mem_eraseDups.mp again

theorem filter_eraseDups (keeps : α → Bool) (values : List α) :
    values.eraseDups.filter keeps = (values.filter keeps).eraseDups := by
  induction values using eraseDups_induction with
  | nil => rfl
  | cons value rest ih =>
      rw [List.eraseDups_cons]
      by_cases kept : keeps value = true
      · rw [List.filter_cons_of_pos kept, List.filter_cons_of_pos kept, List.eraseDups_cons, ih,
          List.filter_comm]
      · rw [List.filter_cons_of_neg kept, List.filter_cons_of_neg kept, ih, List.filter_filter]
        congr 1
        apply List.filter_congr
        intro other _
        by_cases copy : other = value
        · simp [copy, kept]
        · simp [copy]

theorem eraseDups_eq_singleton {values : List α} {value : α} (member : value ∈ values)
    (same : ∀ other ∈ values, other = value) : values.eraseDups = [value] := by
  cases values with
  | nil => exact (List.not_mem_nil member).elim
  | cons first rest =>
      rw [List.forall_mem_cons] at same
      obtain ⟨rfl, copies⟩ := same
      have others : rest.filter (!· == first) = [] := by simpa using copies
      rw [List.eraseDups_cons, others, List.eraseDups_nil]

theorem mem_iff_of_eraseDups_eq {left right : List α} (same : left.eraseDups = right.eraseDups)
    (value : α) : value ∈ left ↔ value ∈ right := by
  rw [← List.mem_eraseDups, same, List.mem_eraseDups]

/-- The first occurrences in some lists one after the other are known from those in each. -/
theorem eraseDups_flatMap_congr {left right : β → List α} (items : List β)
    (same : ∀ item ∈ items, (left item).eraseDups = (right item).eraseDups) :
    (items.flatMap left).eraseDups = (items.flatMap right).eraseDups := by
  induction items with
  | nil => rfl
  | cons item rest ih =>
      rw [List.forall_mem_cons] at same
      -- What an item's list drops from those behind it depends on its members only.
      simp only [List.flatMap_cons, List.eraseDups_append, List.removeAll, ← filter_eraseDups,
        List.elem_eq_mem, mem_iff_of_eraseDups_eq same.1, same.1, ih same.2]

end FirstOccurrences

namespace Flow

variable {flow : Flow} {callersOf first second : MethodRead → List String}

theorem filter_fresh (flow : Flow) (keeps : MethodRead → Bool) (facts : List MethodRead) :
    (flow.fresh facts).filter keeps = flow.fresh (facts.filter keeps) := by
  rw [fresh, fresh, filter_eraseDups, List.filter_comm]

theorem fresh_congr (flow : Flow) {left right : List MethodRead}
    (same : left.eraseDups = right.eraseDups) : flow.fresh left = flow.fresh right := by
  rw [fresh, fresh, ← filter_eraseDups, ← filter_eraseDups, same]

theorem length_fresh_congr (flow : Flow) {left right : List MethodRead}
    (same : ∀ fact, fact ∈ left ↔ fact ∈ right) :
    (flow.fresh left).length = (flow.fresh right).length := by
  have once : ∀ facts, (flow.fresh facts).Nodup := fun facts => nodup_eraseDups _
  apply List.Perm.length_eq
  rw [List.perm_ext_iff_of_nodup (once left) (once right)]
  intro fact
  rw [mem_fresh_iff, mem_fresh_iff, same]

/-- Filing some reads puts those of a method behind the others that it has. -/
theorem find_foldl_indexed (component : Span) (method : String) (facts : List MethodRead)
    (index : MethodIndex) :
    MethodIndex.find (component, method) (facts.foldl indexed index) =
      MethodIndex.find (component, method) index ++
        facts.filter (MethodRead.isOf component method) := by
  induction facts generalizing index with
  | nil => simp
  | cons fact rest ih =>
      rw [List.foldl_cons, ih, find_indexed, List.append_assoc, ← List.filter_append,
        List.singleton_append]

theorem readsOfMethod_addMethodReads (added : Nat) (flow : Flow) (facts : List MethodRead)
    (component : Span) (method : String) :
    (addMethodReads added flow facts).2.readsOfMethod component (some method) =
      flow.readsOfMethod component (some method) ++
        flow.fresh (facts.filter (MethodRead.isOf component method)) := by
  rw [addMethodReads_eq, ← filter_fresh]
  exact find_foldl_indexed ..

/-- What a method inherits from a read: the same read, if the method is to get it. -/
def inherited? (flow : Flow) (component : Span) (method : String) (fact : MethodRead) :
    Option MethodRead :=
  if fact.component = component ∧ method ∈ flow.callersOf fact then
    some { fact with method? := some method }
  else none

/-- What a method inherits from the reads that are there, in the order of these. -/
def inherited (flow : Flow) (component : Span) (method : String) : List MethodRead :=
  flow.methodReads.filterMap (flow.inherited? component method)

theorem Lists.mem_iff (lists : flow.Lists first) (others : flow.Lists second)
    (fact : MethodRead) (caller : String) : caller ∈ first fact ↔ caller ∈ second fact :=
  (lists fact caller).trans (others fact caller).symm

/-- However a read is spread over its callers, one method gets the same of it. -/
theorem Lists.eraseDups_filter_spread (lists : flow.Lists callersOf) (component : Span)
    (method : String) (fact : MethodRead) :
    ((spread callersOf fact).filter (MethodRead.isOf component method)).eraseDups =
      (flow.inherited? component method fact).toList := by
  have members : ∀ read,
      read ∈ (spread callersOf fact).filter (MethodRead.isOf component method) ↔
        (fact.component = component ∧ method ∈ flow.callersOf fact) ∧
          read = { fact with method? := some method } := by
    intro read
    rw [← lists.mem_iff flow.callersOf_lists fact method, spread, List.mem_filter, List.mem_map]
    constructor
    · rintro ⟨⟨caller, listed, rfl⟩, own⟩
      simp only [MethodRead.isOf, Bool.and_eq_true, beq_iff_eq, Option.some.injEq] at own
      obtain ⟨here, rfl⟩ := own
      exact ⟨⟨here, listed⟩, rfl⟩
    · rintro ⟨⟨here, listed⟩, rfl⟩
      exact ⟨⟨method, listed, rfl⟩, by simp [MethodRead.isOf, here]⟩
  rw [inherited?]
  split
  · rename_i gets
    exact eraseDups_eq_singleton ((members _).mpr ⟨gets, rfl⟩)
      fun read member => ((members read).mp member).2
  · rename_i gets
    rw [List.eq_nil_iff_forall_not_mem.mpr fun read member => gets ((members read).mp member).1]
    rfl

/-- After closing, a method has the reads that it had, and behind them what is new of those
that it inherits. -/
theorem Lists.readsOfMethod_closeVia (lists : flow.Lists callersOf) (component : Span)
    (method : String) :
    (flow.closeVia callersOf).2.readsOfMethod component (some method) =
      flow.readsOfMethod component (some method) ++
        flow.fresh (flow.inherited component method) := by
  rw [closeVia, addAllToCallers_eq, readsOfMethod_addMethodReads, List.filter_flatMap]
  congr 1
  apply fresh_congr
  rw [inherited, List.filterMap_eq_flatMap_toList]
  apply eraseDups_flatMap_congr
  intro fact _
  have once : ((flow.inherited? component method fact).toList).eraseDups =
      (flow.inherited? component method fact).toList := by
    cases flow.inherited? component method fact <;> rfl
  rw [lists.eraseDups_filter_spread, once]

/-- Two ways to list the callers add equally many reads. -/
theorem Lists.closeVia_count (lists : flow.Lists first) (others : flow.Lists second) :
    (flow.closeVia first).1 = (flow.closeVia second).1 := by
  simp only [closeVia, addAllToCallers_eq, addMethodReads_eq]
  rw [length_fresh_congr]
  intro fact
  simp only [List.mem_flatMap, spread, List.mem_map, lists.mem_iff others]

/-- **The order in which callers are listed does not show.** Whatever the facts are and
however the methods that reach a read's method are listed for each read, closing returns
the same count and leaves the same reads of each method in the same order: those that the
method had, and behind them, in the order of the reads that they stem from and each in its
first place, what is new of those that it inherits. -/
theorem closeVia_eq_of_lists (lists : flow.Lists first) (others : flow.Lists second) :
    (flow.closeVia first).1 = (flow.closeVia second).1 ∧
      (∀ component method?, (flow.closeVia first).2.readsOfMethod component method? =
        (flow.closeVia second).2.readsOfMethod component method?) ∧
      ∀ component method, (flow.closeVia first).2.readsOfMethod component (some method) =
        flow.readsOfMethod component (some method) ++
          flow.fresh (flow.inherited component method) := by
  refine ⟨lists.closeVia_count others, fun component method? => ?_,
    lists.readsOfMethod_closeVia⟩
  cases method? with
  | none => rfl
  | some method => rw [lists.readsOfMethod_closeVia, others.readsOfMethod_closeVia]

/-- Two methods that call each other and read the state, and two that call one of them. The
callers listed backwards leave another list of all reads, and nothing else differs. -/
theorem closeVia_callersBackwards :
    let component : Span := ⟨0, 90, "class"⟩
    let flow := run [.methodRead ⟨component, some "size", ⟨10, 20, "member_expression"⟩⟩,
      .methodRead ⟨component, some "area", ⟨30, 40, "member_expression"⟩⟩,
      .call ⟨component, "size", "area"⟩, .call ⟨component, "area", "size"⟩,
      .call ⟨component, "show", "size"⟩, .call ⟨component, "draw", "size"⟩]
    let backwards := fun fact => (flow.callersOf fact).reverse
    flow.Lists flow.callersOf ∧ flow.Lists backwards ∧
      (flow.closeVia flow.callersOf).2.methodReads ≠ (flow.closeVia backwards).2.methodReads ∧
      (flow.closeVia flow.callersOf).1 = 6 ∧ (flow.closeVia backwards).1 = 6 ∧
      ∀ component method?,
        (flow.closeVia flow.callersOf).2.readsOfMethod component method? =
          (flow.closeVia backwards).2.readsOfMethod component method? := by
  intro component flow backwards
  have lists : flow.Lists flow.callersOf := callersOf_lists flow
  have others : flow.Lists backwards := by
    intro fact caller
    rw [List.mem_reverse]
    exact lists fact caller
  obtain ⟨counts, reads, -⟩ := closeVia_eq_of_lists lists others
  have six : (flow.closeVia flow.callersOf).1 = 6 := by decide +kernel
  exact ⟨lists, others, by decide +kernel, six, counts ▸ six, reads⟩

end Flow

end StaleRead
