import ApiDoc.Proofs.Dialect.ClassHead
import ApiDoc.Proofs.Syntax.Rendering

/-!
# Fields on lines of their own

A Groovy class may declare a field on each line, with no semicolon behind it. Its value ends at the
line end if it ends in a word, a literal or a closing bracket. But a name with `++` or `--` behind
it looks like an expression that goes on, so the next line is taken along (`merged`), and the field
on it is lost.
-/

namespace ApiDoc.Syntax.Groovy

open ApiDoc.Syntax.Parser
open Cursor (facing)
open Grammar (groovy)

/-! ## Ends of a value -/

/-- Can an expression end in the token? -/
def isOperand (t : Token) : Bool :=
  match t.kind with
  | .ident | .keyword | .number | .stringLit | .charLit => true
  | _ => t.closes

/-- Does a run of slots end in a word, a literal or a closing bracket? -/
def endsInOperand (run : List Slot) : Bool := run.getLast?.any fun s => isOperand s.token

/-- Does a run of slots end in `++` or `--` behind an identifier? -/
def endsInStep (run : List Slot) : Bool :=
  match run.reverse with
  | second :: first :: name :: _ =>
    name.token.kind = .ident && !second.token.spaced &&
      (first.token.isPunct '+' && second.token.isPunct '+' ||
        first.token.isPunct '-' && second.token.isPunct '-')
  | _ => false

theorem isOperator_of_isOperand {t : Token} (h : isOperand t = true) : isOperator t = false := by
  unfold isOperand at h
  unfold isOperator
  cases hkind : t.kind <;> simp_all [Token.closes, Token.isPunct, Char.toString]
  rcases h with (h | h) | h <;> simp [h]

/-- A value that ends looks as if it went on if it ends in a step. -/
theorem dangles_eq {run : List Slot} (h : (endsInOperand run || endsInStep run) = true) :
    dangles run = endsInStep run := by
  cases hstep : endsInStep run with
  | true =>
    unfold endsInStep at hstep
    split at hstep
    · next second first name front hrun =>
      have hlast : run.getLast? = some second := by
        rw [List.getLast?_eq_head?_reverse, hrun, List.head?_cons]
      have hsign : second.token.isPunct '+' = true ∨ second.token.isPunct '-' = true := by
        simp only [Bool.and_eq_true, Bool.or_eq_true] at hstep
        exact hstep.2.imp And.right And.right
      simp only [dangles, hlast, Option.any_some]
      rcases hsign with hsign | hsign <;>
        simp_all [isOperator, Token.isPunct, Char.toString]
    · cases hstep
  | false =>
    rw [hstep, Bool.or_false, endsInOperand, Option.any_eq_true] at h
    obtain ⟨last, hlast, hoperand⟩ := h
    rw [dangles, hlast, Option.any_some, isOperator_of_isOperand hoperand]

/-! ## Lines and classes -/

/-- A line that declares a field: `def`, a name, `=` and a value, and the line ends behind it. -/
structure FieldLine where
  word : Slot
  name : Slot
  sign : Slot
  value : List Slot
  ends : List Slot
  isDef : word.token.isKeyword "def" = true
  isName : groovy.isName name.token = true
  isSign : sign.token.isPunct '=' = true
  balanced : Balanced Slot.token (fun s => endsExpression s.token = false) value
  complete : (endsInOperand value || endsInStep value) = true
  ends_ne_nil : ends ≠ []
  isNewline : ∀ s ∈ ends, s.token.isNewline = true

namespace FieldLine

/-- The line without its ends. -/
def code (l : FieldLine) : List Slot := l.word :: l.name :: l.sign :: l.value

def slots (l : FieldLine) : List Slot := l.code ++ l.ends

/-- Does the value end in `++` or `--`? -/
def isStepped (l : FieldLine) : Bool := endsInStep l.value

/-- The value, if the lines `taken` are taken for a part of it. -/
def expr (l : FieldLine) (taken : List FieldLine) : Tree NodeKind :=
  .leaf .expr (Token.joined ((l.value ++ taken.flatMap code).map Slot.token))
    (headToken l.value).pos

/-- The field that the line declares, if the lines `taken` are taken for a part of its value. -/
def tree (l : FieldLine) (taken : List FieldLine) : Tree NodeKind where
  kind := .variableDef
  text := l.name.token.text
  pos := l.word.token.pos
  doc := l.word.doc
  children :=
    [.leaf .modifiers "" l.word.token.pos, .leaf .type "def" l.word.token.pos, l.expr taken]

theorem value_ne_nil (l : FieldLine) : l.value ≠ [] := by
  intro hnil
  have hcomplete := l.complete
  rw [hnil] at hcomplete
  cases hcomplete

theorem dangles_value (l : FieldLine) : dangles l.value = l.isStepped := dangles_eq l.complete

theorem dangles_code (l : FieldLine) : dangles l.code = l.isStepped := by
  obtain ⟨s, ss, hvalue⟩ := List.exists_cons_of_ne_nil l.value_ne_nil
  rw [← l.dangles_value, code, hvalue, dangles, dangles, List.getLast?_cons_cons,
    List.getLast?_cons_cons, List.getLast?_cons_cons]

theorem balanced_code (l : FieldLine) :
    Balanced Slot.token (fun s => endsExpression s.token = false) l.code := by
  have hword := Token.kind_of_isKeyword l.isDef
  have hname := kind_of_isName l.isName
  refine .single ?_ ?_ ?_ ?_ (.single ?_ ?_ ?_ ?_ (.single ?_ ?_ ?_ ?_ l.balanced))
  · simp [Token.opens, Token.isPunct, hword]
  · simp [Token.closes, Token.isPunct, hword]
  · simp [Token.isEof, hword]
  · simp [endsExpression, Token.isPunct, Token.isNewline, hword]
  · rcases hname with hname | hname <;> simp [Token.opens, Token.isPunct, hname]
  · rcases hname with hname | hname <;> simp [Token.closes, Token.isPunct, hname]
  · rcases hname with hname | hname <;> simp [Token.isEof, hname]
  · rcases hname with hname | hname <;>
      simp [endsExpression, Token.isPunct, Token.isNewline, hname]
  · simp [Token.opens, Token.isPunct_ne l.isSign]
  · simp [Token.closes, Token.isPunct_ne l.isSign]
  · exact Token.isEof_of_isPunct l.isSign
  · simp [endsExpression, Token.isPunct_ne l.isSign,
      Token.isNewline, Token.kind_of_isPunct l.isSign]

end FieldLine

/-- The lines that are taken along behind a line. -/
def taken : (isStepped : Bool) → List FieldLine → List FieldLine
  | true, l :: ls => l :: taken l.isStepped ls
  | _, _ => []

/-- The lines that are left. -/
def left : (isStepped : Bool) → List FieldLine → List FieldLine
  | true, l :: ls => left l.isStepped ls
  | _, ls => ls

theorem length_left_le (isStepped : Bool) (ls : List FieldLine) :
    (left isStepped ls).length ≤ ls.length := by
  induction ls generalizing isStepped with
  | nil => cases isStepped <;> exact Nat.le_refl 0
  | cons l ls ih =>
    cases isStepped with
    | false => exact Nat.le_refl _
    | true => exact Nat.le_succ_of_le (ih l.isStepped)

/-- The lines of a class that are read as fields, each with the lines that it takes along. -/
def merged : List FieldLine → List (FieldLine × List FieldLine)
  | [] => []
  | l :: ls => (l, taken l.isStepped ls) :: merged (left l.isStepped ls)
termination_by ls => ls.length
decreasing_by exact Nat.lt_succ_of_le (length_left_le _ _)

/-- A file with a class of fields, each on a line of its own. Line ends may stand in front of the
class, behind its name, behind the brace that opens it, and behind the class. -/
structure LineClass where
  front : List Slot
  word : Slot
  name : Slot
  gap : List Slot
  opening : Slot
  inside : List Slot
  lines : List FieldLine
  closing : Slot
  back : List Slot
  ending : Slot
  isClass : word.token.isKeyword "class" = true
  isName : groovy.isName name.token = true
  isOpening : opening.token.isPunct '{' = true
  isClosing : closing.token.isPunct '}' = true
  isEof : ending.token.isEof = true
  isNewline : ∀ s ∈ front ++ gap ++ inside ++ back, s.token.isNewline = true

namespace LineClass

/-- The slots behind the brace that opens the class. -/
def rest (c : LineClass) : List Slot :=
  c.inside ++ (c.lines.flatMap FieldLine.slots ++ c.closing :: (c.back ++ [c.ending]))

def slots (c : LineClass) : List Slot :=
  c.front ++ c.word :: c.name :: (c.gap ++ c.opening :: c.rest)

/-- The file with the given fields. -/
def tree (c : LineClass) (fields : List (Tree NodeKind)) : Tree NodeKind :=
  groovy.unit
    [{ kind := .classDef, text := c.name.token.text, pos := c.word.token.pos, doc := c.word.doc,
       children := [.leaf .modifiers "" c.word.token.pos,
         (Tree.leaf .objBlock "" c.opening.token.pos).withChildren fields] }]

theorem tree_inj {c : LineClass} {fields fields' : List (Tree NodeKind)}
    (h : c.tree fields = c.tree fields') : fields = fields' := by
  simpa [tree, Grammar.unit, Tree.withChildren] using h

end LineClass

/-! ## Reading a value -/

section

variable {before rest : List Slot} {closing : Slot} {ls : List FieldLine}

theorem startsLine (hclosing : closing.token.isPunct '}' = true) :
    StartsLine (ls.flatMap FieldLine.slots ++ closing :: rest) := by
  cases ls with
  | nil =>
    refine ⟨by simp, ?_, ?_, ?_⟩
    · exact Token.isNewline_of_kind (by simp [Token.kind_of_isPunct hclosing])
    · exact Token.isPunct_ne hclosing (by decide)
    · exact Token.isPunct_ne hclosing (by decide)
  | cons l ls =>
    have hkind := Token.kind_of_isKeyword l.isDef
    refine ⟨by simp, ?_, ?_, ?_⟩
    · exact Token.isNewline_of_kind (by simp [FieldLine.slots, FieldLine.code, hkind])
    · exact Token.isPunct_of_kind (by simp [FieldLine.slots, FieldLine.code, hkind])
    · exact Token.isPunct_of_kind (by simp [FieldLine.slots, FieldLine.code, hkind])

/-- What is left behind a value whose line has the line ends `ends` and the lines `ls` behind it:
the line ends `ends'`, and the lines that are not taken along. -/
structure Leaves (isStepped : Bool) (ends : List Slot) (ls : List FieldLine) (ends' : List Slot) :
    Prop where
  isNewline : ∀ s ∈ ends', s.token.isNewline = true
  left_eq_nil : ends' = [] → left isStepped ls = []
  length_le : (ends' ++ (left isStepped ls).flatMap FieldLine.slots).length ≤
    (ends ++ ls.flatMap FieldLine.slots).length

/-- The value of a field is read with the lines that it takes along. -/
theorem skipExpression_lines (hclosing : closing.token.isPunct '}' = true) {run ends : List Slot}
    {isStepped : Bool} (hrun : Balanced Slot.token (fun s => endsExpression s.token = false) run)
    (hne : run ≠ []) (hdangles : dangles run = isStepped) (hends : ends ≠ [])
    (hlines : ∀ s ∈ ends, s.token.isNewline = true) :
    ∃ run' ends', run' ++ ends' = run ++ ends ++ (taken isStepped ls).flatMap FieldLine.slots ∧
      Leaves isStepped ends ls ends' ∧
      groovy.skipExpression true
        (facing before (run ++ (ends ++ (ls.flatMap FieldLine.slots ++ closing :: rest)))) =
          .ok () (facing (run'.reverse ++ before)
            (ends' ++ ((left isStepped ls).flatMap FieldLine.slots ++ closing :: rest))) := by
  induction ls generalizing run ends isStepped before with
  | nil =>
    rw [skipExpression_line hrun hne hlines hends (startsLine hclosing), hdangles]
    cases isStepped with
    | false =>
      exact ⟨run, ends, by simp [taken], ⟨hlines, fun h => absurd h hends, Nat.le_refl _⟩, rfl⟩
    | true =>
      refine ⟨run ++ ends, [], by simp [taken], ⟨by simp, fun _ => rfl, by simp [left]⟩, ?_⟩
      rw [if_pos rfl, List.reverse_append, List.append_assoc]
      exact @skipExpression_closing _ _ .curly hclosing
  | cons l ls ih =>
    rw [skipExpression_line hrun hne hlines hends (startsLine hclosing), hdangles]
    cases isStepped with
    | false =>
      exact ⟨run, ends, by simp [taken], ⟨hlines, fun h => absurd h hends, Nat.le_refl _⟩, rfl⟩
    | true =>
      -- a sign at the end of the line takes the next one in, and then it depends on that line
      obtain ⟨run', ends', hslots, hleaves, hread⟩ := @ih (ends.reverse ++ (run.reverse ++ before))
        l.code l.ends l.isStepped l.balanced_code (by simp [FieldLine.code]) l.dangles_code
        l.ends_ne_nil l.isNewline
      have hlength := hleaves.length_le
      refine ⟨run ++ ends ++ run', ends', ?_, ⟨hleaves.isNewline, hleaves.left_eq_nil, ?_⟩, ?_⟩
      · rw [List.append_assoc, hslots]
        simp [taken, FieldLine.slots]
      · simp only [left, FieldLine.slots, List.flatMap_cons, List.length_append] at hlength ⊢
        omega
      · rw [if_pos rfl, List.flatMap_cons, FieldLine.slots, List.append_assoc, List.append_assoc,
          hread]
        simp [left]

end

/-! ### Text -/

/-- The tokens of slots that are no line ends. -/
def inked (ss : List Slot) : List Token := (ss.map Slot.token).filter fun t => !t.isNewline

theorem inked_append (ss ts : List Slot) : inked (ss ++ ts) = inked ss ++ inked ts := by
  simp [inked]

theorem inked_eq_nil {ss : List Slot} (h : ∀ s ∈ ss, s.token.isNewline = true) : inked ss = [] := by
  simpa [inked] using h

theorem joined_inked (ss : List Slot) :
    Token.joined (inked ss) = Token.joined (ss.map Slot.token) :=
  Token.joined_filter _

theorem inked_flatMap_slots (ls : List FieldLine) :
    inked (ls.flatMap FieldLine.slots) = inked (ls.flatMap FieldLine.code) := by
  induction ls with
  | nil => rfl
  | cons l ls ih =>
    rw [List.flatMap_cons, List.flatMap_cons, inked_append, inked_append, FieldLine.slots,
      inked_append, inked_eq_nil l.isNewline, List.append_nil, ih]

/-- Line ends leave no trace in the text of a value. -/
theorem joined_value {l : FieldLine} {ls : List FieldLine} {run ends : List Slot}
    (hslots : run ++ ends = l.value ++ l.ends ++ ls.flatMap FieldLine.slots)
    (hends : ∀ s ∈ ends, s.token.isNewline = true) :
    Token.joined (run.map Slot.token) =
      Token.joined ((l.value ++ ls.flatMap FieldLine.code).map Slot.token) := by
  have hinked : inked run = inked (l.value ++ ls.flatMap FieldLine.code) := by
    calc inked run = inked (run ++ ends) := by
          rw [inked_append, inked_eq_nil hends, List.append_nil]
      _ = inked (l.value ++ l.ends ++ ls.flatMap FieldLine.slots) := by rw [hslots]
      _ = inked (l.value ++ ls.flatMap FieldLine.code) := by
          rw [inked_append, inked_append, inked_append, inked_eq_nil l.isNewline,
            List.append_nil, inked_flatMap_slots]
  rw [← joined_inked, hinked, joined_inked]

/-! ## Reading a member -/

section

variable {before rest : List Slot} {closing : Slot} {l : FieldLine} {ls : List FieldLine}
  {inside : Grammar.BodyParser NodeKind} {className : String}

/-- The word `def` is no modifier and declares no type: a field or a method follows. -/
theorem member_def {c : Cursor} (h : c.token.isKeyword "def" = true) :
    groovy.member inside className c =
      groovy.methodOrFields c (.leaf .modifiers "" c.pos) (some className) c := by
  have hkind := Token.kind_of_isKeyword h
  have htext : c.token.text = "def" := by simpa [Token.isKeyword, hkind] using h
  have hmodifier : groovy.atModifier c = false := by
    simp [Grammar.atModifier, htext, groovy, Language.modifierWords]
  have htype : groovy.atTypeDef c = false := by
    simp [Grammar.atTypeDef, groovy, Language.typeWords, Token.isKeyword, Token.isPunct, hkind,
      htext]
  have hstatic : c.token.isKeyword "static" = false := by simp [Token.isKeyword, htext]
  unfold Grammar.member
  simp only [monadLift_eq]
  rw [cursor_bind, Token.isPunct_of_kind (by simp [hkind]), if_neg Bool.false_ne_true, hstatic,
    Bool.false_and, if_neg Bool.false_ne_true,
    bind_of_ok (Grammar.modifiers_of_none (Token.isPunct_of_kind (by simp [hkind])) hmodifier),
    cursor_bind, htype]
  rfl

/-- The word `def` stands for a type. -/
theorem declaredType_def {word : Slot} (hword : word.token.isKeyword "def" = true)
    (hrest : rest ≠ []) :
    groovy.declaredType Grammar.followsMember (facing before (word :: rest)) =
      .ok (.leaf .type "def" word.token.pos) (facing (word :: before) rest) := by
  show (get >>= fun c => eatKeyword "def" >>= fun b => _) _ = _
  rw [get_bind, eatKeyword_bind, Cursor.token_facing, headToken_cons, hword, if_pos rfl,
    Cursor.next_facing (Token.isEof_of_isKeyword hword) hrest]
  rfl

theorem methodOrFields_def {start : Cursor} {modifiers : Tree NodeKind} :
    groovy.methodOrFields start modifiers (some className)
        (facing before (l.word :: l.name :: l.sign :: rest)) =
      groovy.fields l.name.token.text start modifiers (.leaf .type "def" l.word.token.pos)
        (facing (l.name :: l.word :: before) (l.sign :: rest)) := by
  have hword := Token.kind_of_isKeyword l.isDef
  have hname := kind_of_isName l.isName
  have hconstructor : Grammar.atConstructor (some className)
      (facing before (l.word :: l.name :: l.sign :: rest)) = false := by
    simp [Grammar.atConstructor, hword]
  -- A name stands behind `def`, so the member has no quoted name, and no parameters follow it.
  have hquoted : groovy.quotedName? (facing (l.word :: before) (l.name :: l.sign :: rest)) =
      .ok none (facing (l.word :: before) (l.name :: l.sign :: rest)) := by
    rw [Grammar.quotedName?, get_bind, Cursor.token_facing, headToken_cons]
    rcases hname with hname | hname <;> rw [hname] <;> rfl
  have htaken : groovy.name (facing (l.word :: before) (l.name :: l.sign :: rest)) =
      .ok l.name.token.text (facing (l.name :: l.word :: before) (l.sign :: rest)) := by
    refine bind_of_ok (expectName_ok.mpr ⟨l.isName, rfl, ?_⟩)
    exact (Cursor.next_facing (Token.isEof_of_isName l.isName) (by simp)).symm
  rw [Grammar.methodOrFields, atPunct_bind, Cursor.token_facing, headToken_cons,
    Token.isPunct_of_kind (by simp [hword]), if_neg Bool.false_ne_true, pure_bind]
  beta_reduce
  rw [get_bind, hconstructor, if_neg Bool.false_ne_true,
    bind_of_ok (declaredType_def l.isDef (by simp)), bind_of_ok hquoted]
  show (groovy.name >>= fun name => atPunct '(' >>= fun b => (_ : Parser _)) _ = _
  rw [bind_of_ok htaken, atPunct_bind, Cursor.token_facing, headToken_cons,
    Token.isPunct_ne l.isSign (by decide)]
  rfl

theorem expression_line (hclosing : closing.token.isPunct '}' = true) :
    ∃ before' ends, Leaves l.isStepped l.ends ls ends ∧
      groovy.expression true
        (facing before (l.value ++ (l.ends ++ (ls.flatMap FieldLine.slots ++ closing :: rest)))) =
          .ok (l.expr (taken l.isStepped ls)) (facing before'
            (ends ++ ((left l.isStepped ls).flatMap FieldLine.slots ++ closing :: rest))) := by
  obtain ⟨run, ends, hslots, hleaves, hread⟩ := @skipExpression_lines before rest closing ls
    hclosing l.value l.ends l.isStepped l.balanced l.value_ne_nil l.dangles_value l.ends_ne_nil
    l.isNewline
  refine ⟨run.reverse ++ before, ends, hleaves, ?_⟩
  have hpos : (headToken (l.value ++ (l.ends ++ (ls.flatMap FieldLine.slots ++
      closing :: rest)))).pos = (headToken l.value).pos := by
    obtain ⟨s, ss, hvalue⟩ := List.exists_cons_of_ne_nil l.value_ne_nil
    rw [hvalue]
    rfl
  rw [Grammar.expression, get_bind, bind_of_ok hread, Cursor.index_facing, Cursor.pos_facing, hpos,
    textSince_bind (by simp), Cursor.textSince_facing, joined_value hslots hleaves.isNewline]
  rfl

/-- Where a field on a line of its own ends. -/
theorem endOfDeclaration_line {tail : List Slot}
    (h : (headToken tail).isNewline = true ∨ (headToken tail).isPunct '}' = true) :
    groovy.endOfDeclaration (facing before tail) = .ok () (facing before tail) := by
  have hsemicolon : (headToken tail).isPunct ';' = false := by
    rcases h with h | h
    · exact isPunct_of_isNewline h
    · exact Token.isPunct_ne h (by decide)
  have hstop : ((headToken tail).isNewline || (headToken tail).isPunct '}' ||
      (headToken tail).isEof) = true := by
    rcases h with h | h <;> simp [h]
  rw [endOfDeclaration_apply, Cursor.token_facing, hsemicolon, if_neg Bool.false_ne_true,
    if_pos hstop]

/-- A field is read with the lines that its value takes along. -/
theorem fields_line (hclosing : closing.token.isPunct '}' = true) {name : String} {start : Cursor}
    {modifiers type : Tree NodeKind} :
    ∃ before' ends, Leaves l.isStepped l.ends ls ends ∧
      groovy.fields name start modifiers type (facing before
          (l.sign :: (l.value ++ (l.ends ++ (ls.flatMap FieldLine.slots ++ closing :: rest))))) =
        .ok [{ kind := .variableDef, text := name, pos := start.pos, doc := start.doc,
               children := [modifiers, type, l.expr (taken l.isStepped ls)] }]
          (facing before'
            (ends ++ ((left l.isStepped ls).flatMap FieldLine.slots ++ closing :: rest))) := by
  obtain ⟨before', ends, hleaves, hread⟩ := @expression_line (l.sign :: before) rest closing l
    ls hclosing
  refine ⟨before', ends, hleaves, ?_⟩
  generalize htail : ends ++ ((left l.isStepped ls).flatMap FieldLine.slots ++ closing :: rest) =
    tail at hread ⊢
  -- behind the value stands a line end or the bracket of the body, so there is no second field
  have hstop : (headToken tail).isNewline = true ∨ (headToken tail).isPunct '}' = true := by
    cases ends with
    | nil =>
      rw [hleaves.left_eq_nil rfl] at htail
      rw [← htail]
      exact .inr hclosing
    | cons line ends =>
      rw [← htail]
      exact .inl (hleaves.isNewline line List.mem_cons_self)
  have hcomma : (headToken tail).isPunct ',' = false := by
    rcases hstop with h | h
    · exact isPunct_of_isNewline h
    · exact Token.isPunct_ne h (by decide)
  have hvalue : groovy.initialValue (facing before
      (l.sign :: (l.value ++ (l.ends ++ (ls.flatMap FieldLine.slots ++ closing :: rest))))) =
        .ok [l.expr (taken l.isStepped ls)] (facing before' tail) := by
    rw [Grammar.initialValue, eatPunct_bind, Cursor.token_facing, headToken_cons, l.isSign,
      if_pos rfl, if_pos rfl, Cursor.next_facing (Token.isEof_of_isPunct l.isSign)
        (by simp [l.value_ne_nil]), bind_of_ok hread]
    rfl
  refine bind_of_ok (iterate_of_done ?_) |>.trans (bind_of_ok (endOfDeclaration_line hstop))
  show (groovy.initialValue >>= fun value => eatPunct ',' >>= fun b => (_ : Parser _)) _ = _
  rw [bind_of_ok hvalue, eatPunct_bind, Cursor.token_facing, hcomma]
  rfl

/-- A line is read as a field, with the lines that its value takes along. -/
theorem member_line (hclosing : closing.token.isPunct '}' = true) :
    ∃ before' ends, Leaves l.isStepped l.ends ls ends ∧
      groovy.member inside className
        (facing before (l.slots ++ (ls.flatMap FieldLine.slots ++ closing :: rest))) =
          .ok [l.tree (taken l.isStepped ls)] (facing before'
            (ends ++ ((left l.isStepped ls).flatMap FieldLine.slots ++ closing :: rest))) := by
  have hslots : l.slots ++ (ls.flatMap FieldLine.slots ++ closing :: rest) =
      l.word :: l.name :: l.sign ::
        (l.value ++ (l.ends ++ (ls.flatMap FieldLine.slots ++ closing :: rest))) := by
    simp [FieldLine.slots, FieldLine.code]
  have hword : (facing before (l.word :: l.name :: l.sign :: (l.value ++ (l.ends ++
      (ls.flatMap FieldLine.slots ++ closing :: rest))))).token.isKeyword "def" = true := l.isDef
  rw [hslots, member_def hword, methodOrFields_def]
  exact fields_line hclosing

/-- The lines of a class are read as fields, up to the brace that closes it. -/
theorem iterate_membersRound (hclosing : closing.token.isPunct '}' = true) (hrest : rest ≠ [])
    {ends : List Slot} (hends : ∀ s ∈ ends, s.token.isNewline = true)
    (found : List (Tree NodeKind)) :
    ∃ before', iterate found (groovy.membersRound inside className)
        (facing before (ends ++ (ls.flatMap FieldLine.slots ++ closing :: rest))) =
      .ok (found ++ (merged ls).map fun (l, taken) => l.tree taken) (facing before' rest) := by
  -- By induction on the fields: a round takes a line, and with it those that it is merged with.
  induction ls using merged.induct generalizing before ends found with
  | case1 =>
    rw [List.flatMap_nil, List.nil_append, merged, List.map_nil, List.append_nil]
    exact ⟨_, iterate_of_done (Grammar.membersRound_closing hclosing (lineEnds hends) hrest)⟩
  | case2 l ls ih =>
    obtain ⟨before', ends', hleaves, hmember⟩ :=
      @member_line (ends.reverse ++ before) rest closing l ls inside className hclosing
    obtain ⟨final, hfinal⟩ := @ih before' ends' hleaves.isNewline (found ++ [l.tree _])
    have hround : groovy.membersRound inside className found
        (facing before (ends ++ ((l :: ls).flatMap FieldLine.slots ++ closing :: rest))) =
          .ok (.next (found ++ [l.tree (taken l.isStepped ls)])) (facing before'
            (ends' ++ ((left l.isStepped ls).flatMap FieldLine.slots ++ closing :: rest))) := by
      rw [List.flatMap_cons, List.append_assoc]
      exact (Grammar.membersRound_member l.isDef (lineEnds hends)).trans (bind_of_ok hmember)
    refine ⟨final, ?_⟩
    rw [iterate_of_next hround ?_, hfinal, merged]
    · simp
    · have hlength := hleaves.length_le
      simp only [Cursor.remaining_facing, FieldLine.slots, FieldLine.code, List.flatMap_cons,
        List.length_append, List.length_cons] at hlength ⊢
      omega

end

/-! ## Reading the class -/

/-- A file with one class is read, if the body of the class is. Line ends may stand in front of the
class, behind its name and behind the class. -/
theorem file_class {front gap rest back : List Slot} {word ident opening ending : Slot}
    {body : Tree NodeKind} (hfront : ∀ s ∈ front, s.token.isNewline = true)
    (hword : word.token.isKeyword "class" = true) (hident : groovy.isName ident.token = true)
    (hgap : ∀ s ∈ gap, s.token.isNewline = true) (hopening : opening.token.isPunct '{' = true)
    (hback : ∀ s ∈ back, s.token.isNewline = true) (hending : ending.token.isEof = true)
    (hlength : (back ++ [ending]).length ≤ rest.length)
    (hbody : ∀ inside : Grammar.BodyParser NodeKind, ∃ before',
      groovy.members inside ident.token.text false
      (facing (gap.reverse ++ ident :: word :: (front.reverse ++ [])) (opening :: rest)) =
        .ok body (facing before' (back ++ [ending]))) :
    ∃ d, Groovy.file (facing [] (front ++ word :: ident :: (gap ++ opening :: rest))) =
      .ok (groovy.unit
        [{ kind := .classDef, text := ident.token.text, pos := word.token.pos, doc := word.doc,
           children := [.leaf .modifiers "" word.token.pos, body] }]) d := by
  have hskip : groovy.pastSeparators
      (facing [] (front ++ word :: ident :: (gap ++ opening :: rest))) =
        facing (front.reverse ++ []) (word :: ident :: (gap ++ opening :: rest)) :=
    Grammar.pastSeparators_facing (lineEnds hfront) (Token.isNewline_of_isKeyword hword)
      (Token.isPunct_of_isKeyword hword _)
  -- the first word is neither `package` nor `import`, so the round takes a declaration
  have hround : fileRound [] (facing [] (front ++ word :: ident :: (gap ++ opening :: rest))) =
      (Groovy.declaration >>= fun t => pure (.next ([] ++ [t])))
        (groovy.pastSeparators
          (facing [] (front ++ word :: ident :: (gap ++ opening :: rest)))) := by
    rw [fileRound, Grammar.passSeparators_bind, hskip, peek_bind, Cursor.token_facing,
      headToken_cons, Token.isEof_of_isKeyword hword, Token.isKeyword_ne hword (by decide),
      Token.isKeyword_ne hword (by decide)]
    rfl
  obtain ⟨before, hread⟩ := hbody (groovy.body (maxNesting - 1))
  have hdeclaration : Groovy.declaration (facing (front.reverse ++ [])
      (word :: ident :: (gap ++ opening :: rest))) =
        .ok { kind := .classDef, text := ident.token.text, pos := word.token.pos, doc := word.doc,
              children := [.leaf .modifiers "" word.token.pos, body] }
          (facing before (back ++ [ending])) := by
    rw [Groovy.declaration, get_bind, bind_of_ok (Grammar.modifiers_class hword), get_bind,
      Grammar.atTypeDef_class hword, if_pos rfl, Grammar.topTypeDef,
      Grammar.typeDef_class hword hident (lineEnds hgap) hopening]
    exact bind_of_ok hread
  have hend : groovy.pastSeparators (facing before (back ++ [ending])) =
      facing (back.reverse ++ before) [ending] := by
    have heof : ending.token.kind = .eof := by simpa [Token.isEof] using hending
    exact Grammar.pastSeparators_facing (lineEnds hback) (Token.isNewline_of_kind (by simp [heof]))
      (Token.isPunct_of_kind (by simp [heof]))
  refine ⟨_, file_of_ok hround (hskip ▸ hdeclaration) ?_ ?_⟩
  · simp only [Cursor.remaining_facing, List.length_append, List.length_cons] at hlength ⊢
    omega
  · rw [hend]
    exact hending

namespace LineClass

variable (c : LineClass)

theorem isNewline_front : ∀ s ∈ c.front, s.token.isNewline = true := fun s hs =>
  c.isNewline s (by simp [hs])

theorem isNewline_gap : ∀ s ∈ c.gap, s.token.isNewline = true := fun s hs =>
  c.isNewline s (by simp [hs])

theorem isNewline_inside : ∀ s ∈ c.inside, s.token.isNewline = true := fun s hs =>
  c.isNewline s (by simp [hs])

theorem isNewline_back : ∀ s ∈ c.back, s.token.isNewline = true := fun s hs =>
  c.isNewline s (by simp [hs])

/-- The fields that are read. -/
def readFields : List (Tree NodeKind) := (merged c.lines).map fun (l, taken) => l.tree taken

theorem members_rest {before : List Slot} (inside : Grammar.BodyParser NodeKind)
    (className : String) :
    ∃ before', groovy.members inside className false (facing before (c.opening :: c.rest)) =
      .ok ((Tree.leaf .objBlock "" c.opening.token.pos).withChildren c.readFields)
        (facing before' (c.back ++ [c.ending])) := by
  obtain ⟨before', hread⟩ := @iterate_membersRound (c.opening :: before) (c.back ++ [c.ending])
    c.closing c.lines inside className c.isClosing (by simp) c.inside c.isNewline_inside []
  refine ⟨before', ?_⟩
  rw [Grammar.members_opening c.isOpening (by simp [rest])]
  exact bind_of_ok hread

/-- The whole file is read. -/
theorem file_slots : ∃ d, Groovy.file (facing [] c.slots) = .ok (c.tree c.readFields) d :=
  file_class c.isNewline_front c.isClass c.isName c.isNewline_gap c.isOpening c.isNewline_back
    c.isEof (by simp [rest]; omega) fun inside => c.members_rest inside _

end LineClass

/-! ## One field on each line -/

theorem length_merged_le (ls : List FieldLine) : (merged ls).length ≤ ls.length := by
  induction ls using merged.induct with
  | case1 =>
    rw [merged]
    exact Nat.le_refl 0
  | case2 l ls ih =>
    rw [merged]
    exact Nat.succ_le_succ (Nat.le_trans ih (length_left_le _ _))

/-- If no line but the last one ends in a step, each line is a field. -/
theorem merged_eq {ls : List FieldLine} (h : ∀ l ∈ ls.dropLast, l.isStepped = false) :
    merged ls = ls.map (·, []) := by
  induction ls with
  | nil => rw [merged, List.map_nil]
  | cons l ls ih =>
    cases ls with
    | nil =>
      rw [merged]
      cases l.isStepped <;> simp [taken, left, merged]
    | cons m ms =>
      rw [List.dropLast_cons_cons, List.forall_mem_cons] at h
      rw [merged, h.1, List.map_cons, ← ih h.2]
      rfl

/-- If a line but the last one ends in a step, there are fewer fields than lines. -/
theorem isStepped_eq_false {ls : List FieldLine} (h : (merged ls).length = ls.length) :
    ∀ l ∈ ls.dropLast, l.isStepped = false := by
  induction ls with
  | nil => simp
  | cons l ls ih =>
    cases ls with
    | nil => simp
    | cons m ms =>
      rw [merged] at h
      have hl : l.isStepped = false := by
        cases hstep : l.isStepped with
        | false => rfl
        | true =>
          rw [hstep] at h
          have hlength := Nat.le_trans (length_merged_le (left m.isStepped ms))
            (length_left_le _ ms)
          simp only [left, List.length_cons] at h
          omega
      rw [hl] at h
      rw [List.dropLast_cons_cons]
      exact List.forall_mem_cons.mpr ⟨hl, ih (Nat.succ.inj h)⟩

/-- **Fields on lines of their own.** A class with a field on each line is read, each field with the
lines that its value takes along; every line is a field of its own if and only if none but the last
one ends in `++` or `--`. -/
theorem parse_field_per_line_iff (c : LineClass) {source : String} {tokens : List Token}
    (h : Language.groovy.lexicon.tokenize source = .ok tokens)
    (hslots : Slot.attach tokens = c.slots) :
    Groovy.parse source = .ok (c.tree c.readFields) ∧
    (Groovy.parse source = .ok (c.tree (c.lines.map (·.tree []))) ↔
      ∀ l ∈ c.lines.dropLast, l.isStepped = false) := by
  have hparse : Groovy.parse source = .ok (c.tree c.readFields) := by
    obtain ⟨d, hfile⟩ := c.file_slots
    rw [Groovy.parse, h]
    show Parser.read Groovy.file (Cursor.ofTokens tokens) = _
    rw [Cursor.ofTokens_eq_facing h, hslots, Parser.read, hfile]
  refine ⟨hparse, fun hlines => ?_, fun hlines => ?_⟩
  · refine isStepped_eq_false ?_
    have hfields := LineClass.tree_inj (Except.ok.inj (hparse.symm.trans hlines))
    simpa [LineClass.readFields] using congrArg List.length hfields
  · rw [hparse, LineClass.readFields, merged_eq hlines, List.map_map]
    rfl

/-- A slot without doc comment. -/
def slotAt (kind : TokenKind) (text : String) (line column : Nat) (spaced : Bool) : Slot :=
  ⟨⟨kind, text, ⟨line, column⟩, spaced⟩, none⟩

/-- The line `def c = (1,` with its rest, `2)`, on the next one. -/
def pairLine : FieldLine where
  word := slotAt .keyword "def" 2 1 true
  name := slotAt .ident "c" 2 5 true
  sign := slotAt .punct "=" 2 7 true
  value := [slotAt .punct "(" 2 9 true, slotAt .number "1" 2 10 false, slotAt .punct "," 2 11 false,
    slotAt .newline "\n" 2 12 false, slotAt .number "2" 3 1 true, slotAt .punct ")" 3 2 false]
  ends := [slotAt .newline "\n" 3 3 false]
  isDef := by decide
  isName := by decide
  isSign := by decide
  balanced := @Balanced.group _ _ _ .round _ _ [_, _, _, _] [] (by decide) (by decide)
    (.single (by decide) (by decide) (by decide) trivial
      (.single (by decide) (by decide) (by decide) trivial
        (.single (by decide) (by decide) (by decide) trivial
          (.single (by decide) (by decide) (by decide) trivial .nil)))) .nil
  complete := by decide
  ends_ne_nil := by decide
  isNewline := by decide

/-- The line `def a = b++`. -/
def stepLine : FieldLine where
  word := slotAt .keyword "def" 4 1 true
  name := slotAt .ident "a" 4 5 true
  sign := slotAt .punct "=" 4 7 true
  value := [slotAt .ident "b" 4 9 true, slotAt .punct "+" 4 10 false, slotAt .punct "+" 4 11 false]
  ends := [slotAt .newline "\n" 4 12 false]
  isDef := by decide
  isName := by decide
  isSign := by decide
  balanced := .single (by decide) (by decide) (by decide) (by decide)
    (.single (by decide) (by decide) (by decide) (by decide)
      (.single (by decide) (by decide) (by decide) (by decide) .nil))
  complete := by decide
  ends_ne_nil := by decide
  isNewline := by decide

/-- A class of both lines. -/
def pairClass : LineClass where
  front := []
  word := slotAt .keyword "class" 1 1 false
  name := slotAt .ident "A" 1 7 true
  gap := []
  opening := slotAt .punct "\x7b" 1 9 true
  inside := [slotAt .newline "\n" 1 10 false]
  lines := [pairLine, stepLine]
  closing := slotAt .punct "\x7d" 5 1 true
  back := []
  ending := slotAt .eof "" 5 2 false
  isClass := by decide
  isName := by decide
  isOpening := by decide
  isClosing := by decide
  isEof := by decide
  isNewline := by decide

theorem parse_field_per_line_iff_pairClass :
    (∃ tokens, Language.groovy.lexicon.tokenize
        "class A \x7b\ndef c = (1,\n2)\ndef a = b++\n\x7d" = .ok tokens ∧
      Slot.attach tokens = pairClass.slots) ∧
    Groovy.parse "class A \x7b\ndef c = (1,\n2)\ndef a = b++\n\x7d" =
      .ok (pairClass.tree [pairLine.tree [], stepLine.tree []]) := by
  have hread : (Language.groovy.lexicon.tokenize
      "class A \x7b\ndef c = (1,\n2)\ndef a = b++\n\x7d").toOption.map Slot.attach =
        some pairClass.slots := by
    decide +kernel
  cases htokens : Language.groovy.lexicon.tokenize
      "class A \x7b\ndef c = (1,\n2)\ndef a = b++\n\x7d" with
  | error e =>
    rw [htokens] at hread
    cases hread
  | ok tokens =>
    rw [htokens] at hread
    have hslots : Slot.attach tokens = pairClass.slots := Option.some.inj hread
    refine ⟨⟨tokens, rfl, hslots⟩, (parse_field_per_line_iff pairClass htokens hslots).2.mpr ?_⟩
    simp only [pairClass, List.dropLast_cons_cons, List.dropLast_singleton,
      List.forall_mem_singleton]
    decide

/-- The line behind `b++` is no field. -/
theorem step_takes_next_line :
    (Groovy.parse "class A \x7b\ndef a = b++\ndef c = 1\n\x7d").toOption.map (fun t =>
      (t.preorder.filter fun n => n.kind = .variableDef || n.kind = .expr).map Tree.text) =
        some ["a", "b++ def c = 1"] := by
  decide +kernel

end ApiDoc.Syntax.Groovy
