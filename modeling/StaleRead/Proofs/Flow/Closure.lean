import StaleRead.Proofs.Flow.CallChain
import StaleRead.Proofs.Flow.Coherence

/-! # The closure over calls

Closing the facts over calls is recording a list of reads one after the other: for each
read that was there, one read for each method that reaches its method. Recording a list
keeps what was there in front and adds behind it what is new, each fact once
(`Flow.addMethodReads_eq`). Since chains of calls compose, one closing is enough:
after any operations, it adds exactly the reads of the methods that reach a reading one,
and closing again adds nothing (`Flow.close_exact`).
-/

namespace StaleRead.Flow

/-- Record some reads of methods one after the other, counting the new ones. -/
def addMethodReads (added : Nat) (flow : Flow) : List MethodRead → Nat × Flow
  | [] => (added, flow)
  | fact :: rest =>
      let (isNew, flow) := flow.addMethodRead fact
      addMethodReads (if isNew then added + 1 else added) flow rest

/-- A read as a read of each of some methods. -/
def spread (callersOf : MethodRead → List String) (fact : MethodRead) : List MethodRead :=
  (callersOf fact).map fun caller => { fact with method? := some caller }

theorem addToCallers_eq (fact : MethodRead) (added : Nat) (flow : Flow)
    (callers : List String) :
    addToCallers fact added flow callers =
      addMethodReads added flow
        (callers.map fun caller => { fact with method? := some caller }) := by
  induction callers generalizing added flow with
  | nil => rfl
  | cons caller callers ih => exact ih ..

theorem addMethodReads_append (added : Nat) (flow : Flow) (first second : List MethodRead) :
    addMethodReads added flow (first ++ second) =
      addMethodReads (addMethodReads added flow first).1 (addMethodReads added flow first).2
        second := by
  induction first generalizing added flow with
  | nil => rfl
  | cons fact rest ih => exact ih ..

theorem addAllToCallers_eq (callersOf : MethodRead → List String) (added : Nat) (flow : Flow)
    (facts : List MethodRead) :
    addAllToCallers callersOf added flow facts =
      addMethodReads added flow (facts.flatMap (spread callersOf)) := by
  induction facts generalizing added flow with
  | nil => rfl
  | cons fact rest ih =>
      rw [List.flatMap_cons, addMethodReads_append, ← ih, spread, ← addToCallers_eq]
      rfl

variable {flow : Flow}

/-- Those of some reads that are not recorded yet, each once, in the order in which they
first come. -/
def fresh (flow : Flow) (facts : List MethodRead) : List MethodRead :=
  (facts.filter (!flow.methodKeys.contains ·.key)).eraseDups

theorem fresh_cons_of_known {fact : MethodRead} (known : fact.key ∈ flow.methodKeys)
    (rest : List MethodRead) : flow.fresh (fact :: rest) = flow.fresh rest := by
  simp [fresh, known]

theorem fresh_cons_of_new {fact : MethodRead} (new : fact.key ∉ flow.methodKeys)
    (rest : List MethodRead) :
    flow.fresh (fact :: rest) = fact :: (flow.addMethodRead fact).2.fresh rest := by
  have kept : (!flow.methodKeys.contains fact.key) = true := by simpa using new
  rw [fresh, List.filter_cons, if_pos kept, List.eraseDups_cons, List.filter_filter, fresh,
    addMethodRead, if_neg new]
  congr 2
  -- The copies of a read are known once it is recorded, so both sides drop the same.
  apply List.filter_congr
  intro other _
  rw [Bool.eq_iff_iff]
  simp [MethodRead.key_injective.eq_iff]

/-- Recording reads puts the fresh ones behind the others, and counts them. -/
theorem addMethodReads_eq (added : Nat) (flow : Flow) (facts : List MethodRead) :
    addMethodReads added flow facts =
      (added + (flow.fresh facts).length, { flow with
        methodReads := flow.methodReads ++ flow.fresh facts
        byMethod := (flow.fresh facts).foldl indexed flow.byMethod
        methodKeys := ((flow.fresh facts).map MethodRead.key).reverse ++ flow.methodKeys }) := by
  induction facts generalizing added flow with
  | nil => simp [addMethodReads, fresh]
  | cons fact rest ih =>
      by_cases known : fact.key ∈ flow.methodKeys
      · rw [addMethodReads, fresh_cons_of_known known, ← ih, addMethodRead, if_pos known]
        rfl
      · simp only [addMethodReads, addMethodRead, if_neg known, ↓reduceIte, ih,
          fresh_cons_of_new known]
        simp [Nat.add_assoc, Nat.add_comm 1]

theorem addMethodReads_frame (added : Nat) (flow : Flow) (facts : List MethodRead) :
    (addMethodReads added flow facts).2.bindingReads = flow.bindingReads ∧
      (addMethodReads added flow facts).2.calls = flow.calls := by
  rw [addMethodReads_eq]
  exact ⟨rfl, rfl⟩

theorem mem_fresh_iff (flow : Flow) (facts : List MethodRead) (fact : MethodRead) :
    fact ∈ flow.fresh facts ↔ fact.key ∉ flow.methodKeys ∧ fact ∈ facts := by
  rw [fresh, List.mem_eraseDups, List.mem_filter, and_comm]
  simp

theorem Coherent.mem_fresh_iff (coherent : flow.Coherent) (facts : List MethodRead)
    (fact : MethodRead) :
    fact ∈ flow.fresh facts ↔ fact ∉ flow.methodReads ∧ fact ∈ facts := by
  rw [Flow.mem_fresh_iff, coherent.methodKeys]

/-- Recording reads keeps the old ones in front, and adds and counts the new ones. -/
theorem Coherent.addMethodReads (coherent : flow.Coherent) (added : Nat)
    (facts : List MethodRead) :
    ∃ fresh, (addMethodReads added flow facts).2.methodReads = flow.methodReads ++ fresh ∧
      (∀ fact, fact ∈ fresh ↔ fact ∉ flow.methodReads ∧ fact ∈ facts) ∧
      (Flow.addMethodReads added flow facts).1 = added + fresh.length := by
  rw [addMethodReads_eq]
  exact ⟨flow.fresh facts, rfl, coherent.mem_fresh_iff facts, rfl⟩

theorem Coherent.addMethodReads_of_subset (coherent : flow.Coherent) (added : Nat)
    {facts : List MethodRead} (known : facts ⊆ flow.methodReads) :
    Flow.addMethodReads added flow facts = (added, flow) := by
  have nothing : flow.fresh facts = [] := by
    rw [List.eq_nil_iff_forall_not_mem]
    intro fact member
    have new := (coherent.mem_fresh_iff facts fact).mp member
    exact new.1 (known new.2)
  rw [addMethodReads_eq, nothing]
  simp

/-- A way to list the methods that a read is to be added to: the others of its component
that reach its method, in any order and as often as one likes. -/
def Lists (flow : Flow) (callersOf : MethodRead → List String) : Prop :=
  ∀ fact caller, caller ∈ callersOf fact ↔
    ∃ method, fact.method? = some method ∧ caller ≠ method ∧
      MethodCall.Reaches flow.calls fact.component caller method

theorem callersOf_lists (flow : Flow) : flow.Lists flow.callersOf := by
  intro fact caller
  rw [callersOf]
  cases fact.method? with
  | none => simp
  | some method =>
      rw [MethodCall.mem_transitiveCallers_iff]
      simp

/-- A read follows from a recorded one: a chain of calls leads from its method to a
method of the same component that reads the state at the same node. -/
def Derives (flow : Flow) (fact : MethodRead) : Prop :=
  ∃ caller callee, fact.method? = some caller ∧
    { fact with method? := some callee } ∈ flow.methodReads ∧
      MethodCall.Reaches flow.calls fact.component caller callee

variable {callersOf : MethodRead → List String}

/-- A read is added for a recorded one exactly if it follows from a recorded one, except
that a read is not added for itself. -/
theorem Lists.mem_flatMap_spread (lists : flow.Lists callersOf) (fact : MethodRead) :
    fact ∉ flow.methodReads ∧ fact ∈ flow.methodReads.flatMap (spread callersOf) ↔
      fact ∉ flow.methodReads ∧ flow.Derives fact := by
  refine and_congr_right fun fresh => ?_
  simp only [List.mem_flatMap, spread, List.mem_map]
  constructor
  · rintro ⟨known, recorded, caller, listed, rfl⟩
    obtain ⟨callee, named, _, chain⟩ := (lists known caller).mp listed
    refine ⟨caller, callee, rfl, ?_, chain⟩
    rwa [← named]
  · obtain ⟨component, name, read⟩ := fact
    rintro ⟨caller, callee, rfl, recorded, chain⟩
    have different : caller ≠ callee := by
      rintro rfl
      exact fresh recorded
    exact ⟨_, recorded, caller, (lists _ caller).mpr ⟨callee, rfl, different, chain⟩, rfl⟩

/-- Closing adds the reads that follow from recorded ones, whatever the order in which
callers are listed. -/
theorem Coherent.closeVia (coherent : flow.Coherent) (lists : flow.Lists callersOf) :
    ∃ derived, (flow.closeVia callersOf).2.methodReads = flow.methodReads ++ derived ∧
      (∀ fact, fact ∈ derived ↔ fact ∉ flow.methodReads ∧ flow.Derives fact) ∧
      (flow.closeVia callersOf).1 = derived.length := by
  rw [Flow.closeVia, addAllToCallers_eq]
  obtain ⟨derived, grown, exact, counted⟩ :=
    coherent.addMethodReads 0 (flow.methodReads.flatMap (spread callersOf))
  refine ⟨derived, grown, fun fact => ?_, ?_⟩
  · rw [exact, lists.mem_flatMap_spread]
  · rw [counted, Nat.zero_add]

theorem closeVia_frame (flow : Flow) (callersOf : MethodRead → List String) :
    (flow.closeVia callersOf).2.bindingReads = flow.bindingReads ∧
      (flow.closeVia callersOf).2.calls = flow.calls := by
  rw [Flow.closeVia, addAllToCallers_eq]
  exact addMethodReads_frame ..

theorem close_calls (flow : Flow) : flow.close.2.calls = flow.calls :=
  (closeVia_frame flow flow.callersOf).2

theorem close_bindingReads (flow : Flow) : flow.close.2.bindingReads = flow.bindingReads :=
  (closeVia_frame flow flow.callersOf).1

/-- After closing, a method reads the state exactly if it did before or reaches a method
that did. -/
theorem Coherent.mem_close_methodReads (coherent : flow.Coherent) (fact : MethodRead) :
    fact ∈ flow.close.2.methodReads ↔ fact ∈ flow.methodReads ∨ flow.Derives fact := by
  obtain ⟨derived, grown, exact, _⟩ := coherent.closeVia flow.callersOf_lists
  rw [Flow.close, grown, List.mem_append, exact]
  by_cases known : fact ∈ flow.methodReads
  · exact iff_of_true (Or.inl known) (Or.inl known)
  · exact ⟨fun reads => reads.imp_right And.right, fun reads => reads.imp_right (⟨known, ·⟩)⟩

/-- Chains of calls compose, so what follows from the closed facts was added already. -/
theorem Coherent.mem_of_derives_close (coherent : flow.Coherent) {fact : MethodRead}
    (derives : flow.close.2.Derives fact) : fact ∈ flow.close.2.methodReads := by
  obtain ⟨caller, callee, named, reads, chain⟩ := derives
  rw [close_calls] at chain
  rw [coherent.mem_close_methodReads] at reads ⊢
  rcases reads with recorded | ⟨middle, last, same, recorded, rest⟩
  · exact Or.inr ⟨caller, callee, named, recorded, chain⟩
  · obtain rfl := Option.some.inj same
    exact Or.inr ⟨caller, last, named, recorded, chain.trans rest⟩

/-- Closing what is closed adds nothing and changes nothing. -/
theorem Coherent.close_close (coherent : flow.Coherent) :
    flow.close.2.close = (0, flow.close.2) := by
  have closed := coherent.close
  conv_lhs => rw [Flow.close, Flow.closeVia, addAllToCallers_eq]
  apply closed.addMethodReads_of_subset
  intro fact member
  by_contra fresh
  have derives := ((callersOf_lists _).mem_flatMap_spread fact).mp ⟨fresh, member⟩
  exact fresh (coherent.mem_of_derives_close derives.2)

/-- **One closing is the transitive closure.** After any operations, closing keeps the
reads that are there, in order, and puts behind them, each once, exactly the reads of
methods from which a chain of calls leads to a reading method of the same component. It
returns how many these are and leaves bindings and calls alone, and closing again does
nothing. -/
theorem close_exact (operations : List Operation) :
    ∃ derived,
      (run operations).close.2.methodReads = (run operations).methodReads ++ derived ∧
      derived.Nodup ∧
      (∀ fact, fact ∈ derived ↔
        fact ∉ (run operations).methodReads ∧ (run operations).Derives fact) ∧
      (run operations).close.1 = derived.length ∧
      (run operations).close.2.bindingReads = (run operations).bindingReads ∧
      (run operations).close.2.calls = (run operations).calls ∧
      (run operations).close.2.close = (0, (run operations).close.2) := by
  have coherent := coherent_run operations
  obtain ⟨derived, grown, exact, counted⟩ := coherent.closeVia (callersOf_lists _)
  have once := coherent.close.methodReads_nodup
  rw [close, grown] at once
  exact ⟨derived, grown, (List.nodup_append.mp once).2.1, exact, counted, close_bindingReads _,
    close_calls _, coherent.close_close⟩

end StaleRead.Flow
