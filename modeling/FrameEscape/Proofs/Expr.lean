import FrameEscape.Expr
import Mathlib.Data.List.Forall2

/-!
# Expressions with related children

`Expr.Rel R` holds of two expressions of one kind with the same data whose children are
related by `R`, one by one. It says at once which values a node is computed from (the children
are ids, and values) and that two evaluations of a node go the same way (both are values).

An expression is its kind, its data and the list of its children: `Rel.children` takes the
lists out, and `Rel.of_children` replaces one relation by another that holds of them.
-/

namespace FrameEscape

namespace Expr

variable {α β γ : Type}

/-- The two expressions are alike but for their children, which are related in order. -/
inductive Rel (R : α → β → Prop) : Expr α → Expr β → Prop where
  | literal : Rel R .literal .literal
  | alloc (region : Region) (shape : Option String) :
    Rel R (.alloc region shape) (.alloc region shape)
  | var (name : String) : Rel R (.var name) (.var name)
  | field {base base'} (hbase : R base base') (name : String) :
    Rel R (.field base name) (.field base' name)
  | call {receiver receiver' args args'} (hreceiver : R receiver receiver') (method : String)
    (hargs : List.Forall₂ R args args') :
    Rel R (.call receiver method args) (.call receiver' method args')
  | index {base base' position position'} (hbase : R base base')
    (hposition : R position position') (access : Access) :
    Rel R (.index base position access) (.index base' position' access)
  | slice {base base' args args'} (hbase : R base base') (hargs : List.Forall₂ R args args') :
    Rel R (.slice base args) (.slice base' args')
  | assign {target target' value value'} (htarget : R target target') (hvalue : R value value')
    (mode : Access) : Rel R (.assign target value mode) (.assign target' value' mode)
  | construct {args args'} (shape : String) (hargs : List.Forall₂ R args args') :
    Rel R (.construct shape args) (.construct shape args')
  | declare {init init'} (name : String) (hinit : R init init') :
    Rel R (.declare name init) (.declare name init')
  | block {stmts stmts'} (hstmts : List.Forall₂ R stmts stmts') :
    Rel R (.block stmts) (.block stmts')
  | ret {value value'} (hvalue : R value value') (mode : Access) :
    Rel R (.ret value mode) (.ret value' mode)

/-- The two expressions are alike, whatever their children, of which they have as many. -/
abbrev Alike (expr : Expr α) (expr' : Expr β) : Prop := Rel (fun _ _ => True) expr expr'

namespace Rel

variable {R : α → β → Prop} {S : α → β → Prop} {expr : Expr α} {expr' : Expr β}

theorem children (h : Rel R expr expr') : List.Forall₂ R expr.children expr'.children := by
  cases h with
  | literal | alloc | var => exact .nil
  | field hbase | declare _ hbase | ret hbase => exact .cons hbase .nil
  | call hhead _ hargs | slice hhead hargs => exact .cons hhead hargs
  | index hfst hsnd | assign hfst hsnd => exact .cons hfst (.cons hsnd .nil)
  | construct _ hargs | block hargs => exact hargs

/-- The kind, the data and the children make up an expression. -/
theorem of_children (h : Rel S expr expr')
    (hchildren : List.Forall₂ R expr.children expr'.children) : Rel R expr expr' := by
  cases h with
  | literal => exact .literal
  | alloc region shape => exact .alloc region shape
  | var name => exact .var name
  | field _ name => exact .field (List.forall₂_cons.1 hchildren).1 name
  | call _ name _ =>
    obtain ⟨hreceiver, hargs⟩ := List.forall₂_cons.1 hchildren
    exact .call hreceiver name hargs
  | index _ _ access =>
    obtain ⟨hbase, hrest⟩ := List.forall₂_cons.1 hchildren
    exact .index hbase (List.forall₂_cons.1 hrest).1 access
  | slice _ _ =>
    obtain ⟨hbase, hargs⟩ := List.forall₂_cons.1 hchildren
    exact .slice hbase hargs
  | assign _ _ mode =>
    obtain ⟨htarget, hrest⟩ := List.forall₂_cons.1 hchildren
    exact .assign htarget (List.forall₂_cons.1 hrest).1 mode
  | construct shape _ => exact .construct shape hchildren
  | declare name _ => exact .declare name (List.forall₂_cons.1 hchildren).1
  | block _ => exact .block hchildren
  | ret _ mode => exact .ret (List.forall₂_cons.1 hchildren).1 mode

end Rel

theorem forall₂_true_of_length_eq {as : List α} {bs : List β} (h : as.length = bs.length) :
    List.Forall₂ (fun _ _ => True) as bs :=
  List.forall₂_iff_get.2 ⟨h, fun _ _ _ => trivial⟩

/-- Two expressions like a third are like each other. -/
theorem Alike.join {expr : Expr α} {left : Expr β} {right : Expr γ} (hleft : Alike expr left)
    (hright : Alike expr right) : Alike left right := by
  have hall : ∀ {as : List α} {bs : List β} {cs : List γ},
      List.Forall₂ (fun _ _ => True) as bs → List.Forall₂ (fun _ _ => True) as cs →
      List.Forall₂ (fun _ _ => True) bs cs := fun hbs hcs =>
    forall₂_true_of_length_eq (hbs.length_eq.symm.trans hcs.length_eq)
  cases hleft with
  | literal => cases hright; exact .literal
  | alloc => cases hright; exact .alloc _ _
  | var => cases hright; exact .var _
  | field => cases hright; exact .field trivial _
  | call _ _ hargs =>
    cases hright with
    | call _ _ hargs' => exact .call trivial _ (hall hargs hargs')
  | index => cases hright; exact .index trivial trivial _
  | slice _ hargs =>
    cases hright with
    | slice _ hargs' => exact .slice trivial (hall hargs hargs')
  | assign => cases hright; exact .assign trivial trivial _
  | construct _ hargs =>
    cases hright with
    | construct _ hargs' => exact .construct _ (hall hargs hargs')
  | declare => cases hright; exact .declare _ trivial
  | block hstmts =>
    cases hright with
    | block hstmts' => exact .block (hall hstmts hstmts')
  | ret => cases hright; exact .ret trivial _

theorem Alike.refl (expr : Expr α) : Alike expr expr := by
  have hall : ∀ as : List α, List.Forall₂ (fun _ _ => True) as as := fun as =>
    forall₂_true_of_length_eq rfl
  cases expr with
  | literal => exact .literal
  | alloc region shape => exact .alloc region shape
  | var name => exact .var name
  | field base name => exact .field trivial name
  | call receiver name args => exact .call trivial name (hall args)
  | index base position access => exact .index trivial trivial access
  | slice base args => exact .slice trivial (hall args)
  | assign target value mode => exact .assign trivial trivial mode
  | construct shape args => exact .construct shape (hall args)
  | declare name init => exact .declare name trivial
  | block stmts => exact .block (hall stmts)
  | ret value mode => exact .ret trivial mode

theorem Alike.symm {expr : Expr α} {expr' : Expr β} (h : expr.Alike expr') :
    expr'.Alike expr :=
  h.join (.refl expr)

theorem Alike.trans {expr : Expr α} {expr' : Expr β} {expr'' : Expr γ} (h : expr.Alike expr')
    (h' : expr'.Alike expr'') : expr.Alike expr'' :=
  h.symm.join h'

theorem Rel.alike {R : α → β → Prop} {expr : Expr α} {expr' : Expr β} (h : expr.Rel R expr') :
    expr.Alike expr' :=
  h.of_children (forall₂_true_of_length_eq h.children.length_eq)

/-- Two expressions that are alike are one if their children are. -/
theorem Alike.eq_of_children {expr expr' : Expr α} (h : Alike expr expr')
    (hchildren : expr.children = expr'.children) : expr = expr' := by
  cases h <;> simp_all [children]

end Expr

end FrameEscape
