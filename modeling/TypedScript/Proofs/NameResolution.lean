/-
Names mean the same to the check and to the laying down of code. The check of a module looks a name up in scopes that
still grow and keeps the cell of the variable that it finds there (`Check.bindExpr`); code is laid down later, in the
finished scopes, and asks for a cell for every name again (`Compile.bindExpr`).

- `cells_agree`: for a source module without diagnostics both lead to one bound tree, so that every name that is read or
  assigned and every name that is declared or imported has one cell in both.
-/
import TypedScript.Proofs.Bound.Template
import TypedScript.Proofs.Tree.Reading

namespace TypedScript

/-- in a source module without diagnostics, the check finds a variable for every name, and its cell is the one that the
code of the module gets there -/
theorem cells_agree {g : Graph} {p : Program} {i : Nat} {m : LinkedModule} {body : Block} {text : String}
    (hlink : link g = .ok p) (hm : p.modules[i]? = some m) (hsource : m.module.content = .source body)
    (hparse : parse text = .ok body) (hclean : p.arena.diagnostics m.scopes.global = []) :
    ∃ tree after, g.trees[i]? = some (some tree) ∧
      (Compile.bindBody ⟨p, m⟩ m.scopes.global Bound.moduleSignature body).run ⟨.empty, 0⟩ = .ok (tree, after) ∧
      p.compileModule m = .ok (some (tree.template true)) := by
  obtain ⟨_, hgood⟩ := linked_good hlink
  obtain ⟨hlt, _⟩ := List.getElem?_eq_some_iff.1 hm
  have hlt' : i < g.trees.length := by
    rw [hgood.length]
    exact hlt
  have htree := List.getElem?_eq_getElem hlt'
  obtain ⟨bs, d, hd, ht⟩ := (hgood.checked i m _ hm htree).source body hsource (parse_operators hparse) hclean
  have hnodup := nodup_literalIds_of_parse hparse
  obtain ⟨after, hafter⟩ := hd.bindBody_run hnodup
  exact ⟨_, after, htree.trans (congrArg some ht), hafter, hd.compileModule hsource hnodup⟩

/-- the text of a function that reads a variable from around it and then declares one of the same name -/
def shadowing : String := "let x := 1; let f := fn(): Int { let y := x; let x := 2; return x + y; };"

/-- the program of a module that imports nothing -/
def Program.alone (body : Block) : Program := Program.empty.add (.ofSource "main" body) []

theorem shadowing_clean : (match parse shadowing with
    | .ok body => (Program.alone body).arena.diagnostics 0 == []
    | .error _ => false) = true := by
  set_option maxRecDepth 100000 in decide +kernel

theorem cells_agree_shadowing : ∃ g p m body, link g = .ok p ∧ p.modules[0]? = some m ∧
    m.module.content = .source body ∧ parse shadowing = .ok body ∧ p.arena.diagnostics m.scopes.global = [] ∧
    ∃ tree after, g.trees[0]? = some (some tree) ∧
      (Compile.bindBody ⟨p, m⟩ m.scopes.global Bound.moduleSignature body).run ⟨.empty, 0⟩ = .ok (tree, after) ∧
      p.compileModule m = .ok (some (tree.template true)) := by
  have hclean := shadowing_clean
  cases hparse : parse shadowing with
  | error e => rw [hparse] at hclean; cases hclean
  | ok body =>
    rw [hparse] at hclean
    have hclean := eq_of_beq hclean
    let g : Graph := ((⟨#[], .empty, 0⟩ : Graph).add (.ofSource "main" body)).2
    have hlink : link g = .ok (Program.alone body) := rfl
    exact ⟨g, Program.alone body, _, body, hlink, rfl, rfl, rfl, hclean, cells_agree hlink rfl rfl hparse hclean⟩

end TypedScript
