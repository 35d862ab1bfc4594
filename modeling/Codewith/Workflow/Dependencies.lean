import Codewith.Workflow.Runs

/-!
# Checking step dependencies

A workflow's steps are visited in an order in which every step comes after the steps it depends on.
The check counts for each step the dependencies that are not visited yet, and visits the steps whose
count is zero first in, first out.  Steps that are never visited depend on each other.
-/

namespace Codewith.Workflow

open Lib

/-- How the check ends without success: an error of the check, the panic of a subtraction below
zero, or more visits than there are steps. -/
inductive Stop
  | invalid (message : Text)
  | subtractOverflow
  | visitBound
  deriving DecidableEq, Repr

def missingFromIndex (stepId : Text) : Stop :=
  .invalid ("step `".toList ++ stepId ++ "` was missing from dependency index".toList)

def containsCycle : Stop := .invalid "workflow step dependencies contain a cycle".toList

/-- The number of dependencies of each step, and the dependents of each name, once for every time
the name is listed. -/
structure DependencyIndex where
  indegree : Std.TreeMap Text Nat
  outgoing : Std.TreeMap Text (List Text)

def addDependency (stepId : Text) (index : DependencyIndex) (dependency : Text) :
    Except Stop DependencyIndex :=
  match index.indegree[stepId]? with
  | none => .error (missingFromIndex stepId)
  | some degree =>
      .ok {
        indegree := index.indegree.insert stepId (degree + 1)
        outgoing := index.outgoing.insert dependency
          (index.outgoing.getD dependency [] ++ [stepId]) }

def addStepDependencies (index : DependencyIndex) (step : WorkflowStep) :
    Except Stop DependencyIndex :=
  step.dependsOn.foldlM (addDependency step.id) index

def emptyIndex (steps : List WorkflowStep) : DependencyIndex where
  indegree := steps.foldl (fun indegree step => indegree.insert step.id 0) ∅
  outgoing := ∅

def indexDependencies (steps : List WorkflowStep) : Except Stop DependencyIndex :=
  steps.foldlM addStepDependencies (emptyIndex steps)

/-- The state of the visiting loop. -/
structure Visit where
  indegree : Std.TreeMap Text Nat
  ready : List Text
  visited : Nat

def releaseDependent (visit : Visit) (dependent : Text) : Except Stop Visit :=
  match visit.indegree[dependent]? with
  | none => .error (missingFromIndex dependent)
  | some 0 => .error .subtractOverflow
  | some (degree + 1) =>
      .ok {
        indegree := visit.indegree.insert dependent degree
        ready := if degree = 0 then visit.ready ++ [dependent] else visit.ready
        visited := visit.visited }

/-- The loop over the ready steps, with a bound on the number of its turns. -/
def visitReady (outgoing : Std.TreeMap Text (List Text)) : Nat → Visit → Except Stop Visit
  | 0, visit => if visit.ready = [] then .ok visit else .error .visitBound
  | bound + 1, visit => match visit.ready with
      | [] => .ok visit
      | stepId :: ready => do
          let visit ← (outgoing.getD stepId []).foldlM releaseDependent
            { visit with ready, visited := visit.visited + 1 }
          visitReady outgoing bound visit

def firstVisit (indegree : Std.TreeMap Text Nat) : Visit where
  indegree := indegree
  ready := indegree.toList.filterMap fun (stepId, degree) =>
    if degree = 0 then some stepId else none
  visited := 0

def validateAcyclicDependencies (steps : List WorkflowStep) : Except Stop Unit := do
  let index ← indexDependencies steps
  let visit ← visitReady index.outgoing steps.length (firstVisit index.indegree)
  if visit.visited ≠ steps.length then .error containsCycle else .ok ()

end Codewith.Workflow
