import TypedPerl.Proofs.Document.Numbering
import TypedPerl.Proofs.Walk.Calls

/-!
# Recovery is balanced

Statements open marks, scopes and subroutines and queue declarations, and they may fail with any of
these open. Whatever happens in a statement, all of it is as it was before when its call returns.
-/

namespace TypedPerl.Compile

open State (Balanced)

/-- The call of a statement whose nodes are not generated is balanced in every state. -/
theorem statement_balanced {s : Stmt} {st : State} (env : Env) (hdistinct : s.nodes.Nodup)
    (hfresh : ∀ n ∈ s.nodes, st.isGenerated n = false) :
    Balanced st (statement s env st).2 := by
  have hlist : Stmt.nodesList [s] = s.nodes := by
    rw [Stmt.nodesList_cons, Stmt.nodesList_nil, List.append_nil]
  have h : Fresh [s] st := by
    constructor
    · rw [hlist]
      exact hdistinct
    · rw [hlist]
      exact hfresh
  exact (h.statement env).1

section Tree

variable (settings : Settings) (catalog : Option Catalog) (registry : Registry) (u : SourceUnit)

/-- Behind the walk over a numbered tree nothing is open. -/
theorem tree_state_balanced (hu : u.Numbered) :
    Balanced { table := {}, pending := {} } (tree settings catalog registry 1 u).state := by
  have hfresh := fresh_startState settings catalog registry u hu
  obtain ⟨hwalk, -⟩ := statements_balanced (envOf settings catalog) u.stmts hfresh
  obtain ⟨-, hstart, -⟩ := startState_empty settings catalog registry u
  rw [tree_state]
  exact hstart.trans hwalk

/-- Whatever stands in a document, nothing is open behind its compilation. -/
theorem document_state_balanced (text name : String) :
    Balanced { table := {}, pending := {} }
      (document settings catalog registry 1 text name).state := by
  unfold document
  split
  · rename_i u hdecode
    exact tree_state_balanced settings catalog registry u (SourceUnit.numbered_of_decode hdecode)
  · exact ⟨rfl, rfl, rfl, rfl, rfl⟩

/-- In the walk over a numbered tree, as every decoded tree is, every call of a statement, at any
depth and whether it succeeds or fails, leaves the marks, the queue, the subroutines and the number
of scopes as it found them. Behind the walk nothing of these is open. -/
theorem tree_recovery_balanced (hu : u.Numbered) :
    (∀ c ∈ treeCalls settings catalog registry u,
      Balanced c.before (c.after (envOf settings catalog))) ∧
    (tree settings catalog registry 1 u).state.marks = [] ∧
    (tree settings catalog registry 1 u).state.pending = {} ∧
    (tree settings catalog registry 1 u).state.frames = [] ∧
    (tree settings catalog registry 1 u).state.walking = [] ∧
    (tree settings catalog registry 1 u).state.table.depth = 0 := by
  constructor
  · intro c hc
    have hready := ready_of_mem_treeCalls settings catalog registry u hu c hc
    exact (hready.called (envOf settings catalog)).balanced
  · have hall := tree_state_balanced settings catalog registry u hu
    exact ⟨hall.marks, hall.pending, hall.frames, hall.walking, hall.depth⟩

end Tree

/-- Five statements are called, one of them without success, and each call is balanced. -/
theorem undeclaredInBody_balanced :
    (treeCalls {} none {} undeclaredInBody).map (·.succeeds (envOf {} none)) =
      [false, true, true, true, true] ∧
    (∀ c ∈ treeCalls {} none {} undeclaredInBody, Balanced c.before (c.after (envOf {} none))) ∧
    (tree {} none {} 1 undeclaredInBody).state.marks = [] := by
  have hu : undeclaredInBody.Numbered := by decide
  obtain ⟨hcalls, hmarks, -⟩ := tree_recovery_balanced {} none {} undeclaredInBody hu
  exact ⟨by decide +kernel, hcalls, hmarks⟩

end TypedPerl.Compile
