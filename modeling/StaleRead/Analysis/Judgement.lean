import StaleRead.Analysis.Collection

/-! # Judging the evidence

When all nodes have been visited, the facts are closed over calls. Then every
remembered call is reported against each read of its callee, and every remembered use
against each read that its binding holds. Because this waits for the whole file, it
does not matter whether a helper or an alias is declared before or after its use.
-/

namespace StaleRead

namespace Evidence

variable (source : Source)

/-- Close the facts over calls. -/
def close (evidence : Evidence) : Evidence :=
  { evidence with flow := evidence.flow.close.2 }

/-- Report a call against each read of its callee. -/
def judgeCall (evidence : Evidence) (call : HelperUse) : Evidence :=
  (evidence.flow.readsOfMethod call.component (some call.callee)).foldl
    (fun evidence fact => evidence.flag source fact.read (some call.node.span)) evidence

/-- Report a use against each read that its binding holds. -/
def judgeUse (evidence : Evidence) (use : BindingUse) : Evidence :=
  (evidence.flow.readsOfBinding use.scope (some use.name)).foldl
    (fun evidence fact => evidence.flag source fact.read (some use.node.span)) evidence

/-- Report all remembered calls, then all remembered uses. -/
def judge (evidence : Evidence) : Evidence :=
  let evidence := evidence.helperUses.foldl (judgeCall source) evidence
  evidence.bindingUses.foldl (judgeUse source) evidence

/-- All that is known of a tree in the end, when its nodes are visited in the given
order. -/
def ofNodes (source : Source) (conventions : Conventions) (file : String) (tree : Tree)
    (nodes : List Node) : Evidence :=
  (((initial file tree).noteAll source conventions nodes).close).judge source

/-- All that is known of a tree in the end. -/
def ofTree (source : Source) (conventions : Conventions) (file : String) (tree : Tree) :
    Evidence :=
  ofNodes source conventions file tree (stackWalk tree)

end Evidence

/-- The findings in a file, by position. -/
def lint (source : Source) (conventions : Conventions) (file : String) (tree : Tree) :
    List Finding :=
  (Evidence.ofTree source conventions file tree).log.sorted

end StaleRead
