import KiteCompiler.Proofs.Parsing.Nodes

/-!
# Error nodes

Where the source could not be read there is an error node, and an error is recorded at its place: if the errors behind a
reader are in a list `E`, every error node of its result stands where an error of `E` is (`Records`). That nodes for one
token have no children is proved along with it. This is a law of nodes of which all nodes that have parts are free.
-/

namespace KiteCompiler.Grammar

/-- An error node stands where an error of the list is, and a node for one token has no children. -/
structure Recorded (E : List SyntaxError) (t : Cst) : Prop where
  error (h : t.kind = .error) : ∃ e ∈ E, e.pos.offset = t.span.first.offset
  bare (h : t.kind.isInner = false) : t.children = []

variable {α : Type} [Parts α] {E : List SyntaxError}

theorem recorded_of_isInner {l : Cst.Label} {ts : List Cst} (h : l.kind.isInner = true) : Recorded E (.node l ts) :=
  ⟨fun herror => absurd herror (Cst.Kind.isProper_iff.1 (Cst.Kind.isProper_of_isInner h)),
    fun hbare => absurd (h.symm.trans hbare) (by decide)⟩

/-- Error nodes stand where errors are. -/
abbrev recording (E : List SyntaxError) : NodeLaw where
  errors := E
  Start _ := True
  Holds := Recorded E
  start_onward _ _ := trivial
  framed _ _ h := recorded_of_isInner (Cst.Kind.isInner_of_isFramed h)
  empty _ h := ⟨fun herror => absurd (h.symm.trans herror) (by decide), fun _ => rfl⟩
  leaf _ _ _ h _ :=
    ⟨fun herror => absurd herror (Cst.Kind.isProper_iff.1 (Cst.Kind.isProper_of_isToken h)), fun _ => rfl⟩
  error _ he := ⟨fun _ => he, fun _ => rfl⟩
  endingAt _ _ h := ⟨h.error, h.bare⟩

/-- The error nodes and the nodes for tokens in all trees of a result are as they should be. -/
abbrev AllRecorded (E : List SyntaxError) (a : α) : Prop := Obeys (recording E) a

theorem AllRecorded.every {a : α} (h : AllRecorded E a) : ∀ t ∈ Parts.parts a, t.Every (Recorded E) :=
  @Obeys.every _ _ _ _ h

/-- If the errors behind the reader are in `E`, the error nodes of its result stand where errors of `E` are. -/
abbrev Records (E : List SyntaxError) (p : Parser α) : Prop := Keeps (recording E) p

namespace Records

theorem recorded {p : Parser α} (hp : Records E p) (s : State) (h : (p s).2.errors ⊆ E) : AllRecorded E (p s).1 :=
  hp.obeys s trivial h

instance {k : Cst.Kind} [h : Holds k.isInner] : Free (recording E) k :=
  ⟨fun _ _ hk => recorded_of_isInner (hk ▸ h.eq_true)⟩

instance rulesUpTo (depth : Nat) (p : Production) : Records E (rulesUpTo depth p) := Keeps.rulesUpTo depth p

end Records

end KiteCompiler.Grammar
