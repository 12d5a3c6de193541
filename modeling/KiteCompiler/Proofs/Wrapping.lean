import KiteCompiler.Proofs.SecondBarrier
import KiteCompiler.Proofs.Wrapping.Lowered

/-!
# Wrapping lines

`Doc.render` gets the indentation as an argument. A `Printer` has it in its state instead: it raises it before an
indented part and lowers it behind. Both write the same text, so the indentation of a printer ends where it began
(`Printer.set_eq`). A file ends with a declaration, and a declaration with its line, so behind a file the printer is as
it was before it.

Lines are wrapped in lists of arguments and parameters only. What is printed for an accepted source has the same words
on pages of any width (`wrapping_keeps_words`).
-/

namespace KiteCompiler

/-- A printer: the indentation in levels, the pen, and what is written. -/
structure Printer where
  indent : Nat
  pen : Pen
  output : Text

namespace Printer

/-- A printer before it has written anything. -/
def start : Printer := ⟨0, Pen.start, []⟩

/-- Writes a text. -/
def write (p : Printer) (t : Text) : Printer := { p with pen := p.pen.after t, output := p.output ++ t }

/-- Ends the line. -/
def newline (p : Printer) : Printer := { p with pen := Pen.start, output := p.output ++ [10] }

/-- Writes the margin if it is due. -/
def margin (p : Printer) : Printer :=
  { p with pen := (Doc.setMargin p.indent p.pen).2, output := p.output ++ (Doc.setMargin p.indent p.pen).1 }

/-- Raises the indentation. -/
def raise (p : Printer) (levels : Nat) : Printer := { p with indent := p.indent + levels }

/-- Lowers the indentation. -/
def lower (p : Printer) (levels : Nat) : Printer := { p with indent := p.indent - levels }

mutual

/-- Sets a document. -/
def set (width : Nat) : Doc → Printer → Printer
  | .text t, p => p.write t
  | .newline, p => p.newline
  | .margin, p => p.margin
  | .nest levels body, p => (set width body (p.raise levels)).lower levels
  | .append first second, p => set width second (set width first p)
  | .list hang reserve items, p =>
    if Doc.breaks width reserve items p.pen then ((setLines width items (p.newline.raise hang)).lower hang).margin
    else setItems width items p

/-- Sets items on one line. -/
def setItems (width : Nat) : List Doc → Printer → Printer
  | [], p => p
  | [d], p => set width d p
  | d :: ds, p => setItems width ds ((set width d p).write ", ")

/-- Sets items on a line each. -/
def setLines (width : Nat) : List Doc → Printer → Printer
  | [], p => p
  | d :: ds, p =>
    let p := set width d p.margin
    setLines width ds (if ds.isEmpty then p.newline else (p.write ",").newline)

end

/-- The printer after it has written a text, with the pen behind it. -/
def wrote (p : Printer) (r : Text × Pen) : Printer := ⟨p.indent, r.2, p.output ++ r.1⟩

theorem wrote_wrote (p : Printer) (r s : Text × Pen) : (p.wrote r).wrote s = p.wrote (r.1 ++ s.1, s.2) := by
  rw [wrote, wrote, wrote, List.append_assoc]

theorem lower_wrote (p : Printer) (levels : Nat) (r : Text × Pen) :
    ((p.raise levels).wrote r).lower levels = p.wrote r := by
  rw [wrote, wrote, lower, raise, Nat.add_sub_cancel]

mutual

/-- What a printer writes is the document set with its indentation, which it leaves as it was. -/
theorem set_eq (width : Nat) : (d : Doc) → (p : Printer) → set width d p = p.wrote (d.render width p.indent p.pen)
  | .text t, p => rfl
  | .newline, p => rfl
  | .margin, p => rfl
  | .nest levels body, p => by
    rw [set, set_eq width body, lower_wrote]
    rfl
  | .append first second, p => by
    rw [set, set_eq width second, set_eq width first, wrote_wrote]
    rfl
  | .list hang reserve items, p => by
    rw [set, Doc.render]
    split
    · rw [setLines_eq width items, lower_wrote]
      change ((p.wrote ([10], Pen.start)).wrote _).wrote (Doc.setMargin p.indent _) = _
      rw [wrote_wrote, wrote_wrote]
      rfl
    · exact setItems_eq width items p

theorem setItems_eq (width : Nat) : (ds : List Doc) → (p : Printer) →
    setItems width ds p = p.wrote (Doc.renderItems width p.indent ds p.pen)
  | [], p => by
    rw [setItems, Doc.renderItems, wrote, List.append_nil]
  | [d], p => by
    rw [setItems, set_eq width d]
    rfl
  | d :: e :: ds, p => by
    change setItems width (e :: ds) ((set width d p).write ", ") = _
    rw [setItems_eq width (e :: ds), set_eq width d]
    change ((p.wrote _).wrote (Text.ofString ", ", _)).wrote _ = _
    rw [wrote_wrote p, wrote_wrote p]
    rfl

theorem setLines_eq (width : Nat) : (ds : List Doc) → (p : Printer) →
    setLines width ds p = p.wrote (Doc.renderLines width p.indent ds p.pen)
  | [], p => by
    rw [setLines, Doc.renderLines, wrote, List.append_nil]
  | d :: ds, p => by
    rw [setLines, setLines_eq width ds, set_eq width d]
    cases ds with
    | nil =>
      change (((p.wrote (Doc.setMargin p.indent p.pen)).wrote _).wrote ([10], Pen.start)).wrote _ = _
      rw [wrote_wrote p, wrote_wrote p, wrote_wrote p]
      rfl
    | cons e ds =>
      change ((((p.wrote (Doc.setMargin p.indent p.pen)).wrote _).wrote (Text.ofString ",", _)).wrote
        ([10], Pen.start)).wrote _ = _
      rw [wrote_wrote _ (Text.ofString ",", _), wrote_wrote p, wrote_wrote p, wrote_wrote p]
      rfl

end

end Printer

/-! ## The end of a file -/

section

variable {width indent : Nat}

/-- A declaration of a type ends its last line. -/
theorem Java.pen_typeDecl (t : Java .typeDecl) (p : Pen) : (t.print.render width indent p).2 = Pen.start := by
  cases t <;> rfl

theorem Doc.pen_joined {separator : Text} {d : Doc} (hd : ∀ p, (d.render width indent p).2 = Pen.start) (ds : List Doc)
    (p : Pen) : ((joined separator (ds ++ [d])).render width indent p).2 = Pen.start := by
  induction ds generalizing p with
  | nil => exact hd p
  | cons e ds ih =>
    cases ds with
    | nil => exact hd _
    | cons => exact ih _

/-- A file that is lowered ends its last line. -/
theorem CompilationUnit.pen_lower (u : CompilationUnit) (p : Pen) :
    (u.lower.print.render width indent p).2 = Pen.start :=
  Doc.pen_joined (Java.pen_typeDecl u.type.lower) _ p

end

/-- The width of the page decides on line breaks only: the words on it are the same. Behind the page, the printer is at
the start of a line that is not indented. -/
theorem wrapping_keeps_words {source : Text} (h : (Grammar.parseUnit source).errors = []) {u : CompilationUnit}
    (hu : CompilationUnit.ofCst (Grammar.parseUnit source).tree = .ok u) (width width' : Nat) :
    Token.unspaced (u.lower.print.page width) = Token.unspaced (u.lower.print.page width') ∧
      Printer.start.set width u.lower.print = ⟨0, Pen.start, u.lower.print.page width⟩ := by
  have hformed := Grammar.formed_of_no_errors h
  have hstands : u.Stands True _ :=
    Ast.stands_of_ofCst (Grammar.bare_parse Grammar.compilationUnit source) (fun _ => hformed) hu
  have hlowerable := hformed.mono fun _ h => (⟨h, fun _ _ _ _ _ => trivial⟩ : Cst.Lowerable (fun _ => True) _)
  have hwords := (hstands.clean hlowerable).settled.words_page width width'
  refine ⟨by rw [Token.unspaced_eq, Token.unspaced_eq, hwords], ?_⟩
  rw [Printer.set_eq, Printer.wrote, Printer.start, u.pen_lower]
  rfl

theorem wrapping_keeps_words_in_lambda :
    let source : Text := "class A\x7bvoid f(int a,int b)\x7bg(x->\x7bh(a/b,'\\'');\x7d,\"//\");\x7d\x7d"
    ∃ u : CompilationUnit, (Grammar.parseUnit source).errors = [] ∧
      CompilationUnit.ofCst (Grammar.parseUnit source).tree = .ok u ∧
      Token.unspaced (u.lower.print.page 16) = Token.unspaced (u.lower.print.page 80) ∧
      Printer.start.set 16 u.lower.print = ⟨0, Pen.start, u.lower.print.page 16⟩ := by
  intro source
  have h : (Grammar.parseUnit source).errors = [] := by decide +kernel
  have hread : (CompilationUnit.ofCst (Grammar.parseUnit source).tree).isOk = true := by decide +kernel
  obtain ⟨u, hu⟩ := Ast.Result.exists_of_isOk hread
  exact ⟨u, h, hu, wrapping_keeps_words h hu 16 80⟩

end KiteCompiler
