import ApiDoc.Proofs.Markup.Event
import ApiDoc.Proofs.Markup.Node
import ApiDoc.Proofs.Text.Collapse
import ApiDoc.Proofs.Text.Position

/-!
# Descriptions read back

Reading goes event by event with a stack of open elements. Over the text of a node it moves the
state as the node's content says, and leaves the stack as it was (`run_render`). From that follows
what the description of a document is: the collapsed content of its first body,
`extract_renderAll`.
-/

namespace ApiDoc.Markup

open Text (byteLength)

/-! ## Entities -/

namespace Entity

theorem decodeAll_nil : decodeAll [] = [] := by rw [decodeAll]

theorem decodeAll_cons_of_ne {c : Char} (hc : c ≠ '&') (cs : List Char) :
    decodeAll (c :: cs) = c :: decodeAll cs := by
  rw [decodeAll, if_pos hc]

theorem decodeAll_entity {entity : List Char} {c : Char} (h : decode? entity = some c)
    (hend : ';' ∉ entity) (cs : List Char) :
    decodeAll ('&' :: (entity ++ ';' :: cs)) = c :: decodeAll cs := by
  have hne : ∀ d ∈ entity, decide (d ≠ ';') = true := by
    intro d hd
    have : d ≠ ';' := fun heq => hend (heq ▸ hd)
    simpa using this
  have htake : (entity ++ ';' :: cs).takeWhile (fun d => decide (d ≠ ';')) = entity := by
    rw [List.takeWhile_append_of_pos hne]
    simp
  have hdrop : (entity ++ ';' :: cs).dropWhile (fun d => decide (d ≠ ';')) = ';' :: cs := by
    rw [List.dropWhile_append_of_pos hne]
    simp
  rw [decodeAll, if_neg (by simp), htake, hdrop, h]
  simp

/-- Decoding undoes escaping, whatever text follows. -/
theorem decodeAll_escape_append (cs rest : List Char) :
    decodeAll (escape cs ++ rest) = cs ++ decodeAll rest := by
  induction cs with
  | nil => rfl
  | cons c cs ih =>
    have hsplit : escape (c :: cs) ++ rest = escapeChar c ++ (escape cs ++ rest) := by
      simp [escape]
    rw [hsplit, List.cons_append, ← ih]
    by_cases hamp : c = '&'
    · subst hamp
      have hentity : decode? ['a', 'm', 'p'] = some '&' := by decide
      exact decodeAll_entity hentity (by decide) _
    · by_cases hlt : c = '<'
      · subst hlt
        have hentity : decode? ['l', 't'] = some '<' := by decide
        exact decodeAll_entity hentity (by decide) _
      · rw [escapeChar, if_neg hamp, if_neg hlt]
        exact decodeAll_cons_of_ne hamp _

end Entity

theorem ne_of_mem_escape {cs : List Char} {c : Char} (h : c ∈ escape cs) : c ≠ '<' := by
  obtain ⟨d, -, hd⟩ := List.mem_flatMap.1 h
  simp only [escapeChar] at hd
  split at hd
  · rintro rfl
    exact absurd hd (by decide)
  · split at hd
    · rintro rfl
      exact absurd hd (by decide)
    · rename_i hne
      rw [List.mem_singleton.1 hd]
      exact hne

namespace Body

/-! ## Runs -/

/-- The state behind all events of a text that starts at byte `offset`. -/
def run (index : Text.LineIndex) (s : State) (offset : Nat) (cs : List Char) :
    Except MarkupError State :=
  (Event.readFrom offset cs).foldlM (fun s e => s.step (index.position e.1) e.2) s

variable {index : Text.LineIndex} {s t : State} {offset : Nat}

theorem run_nil : run index s offset [] = .ok s := by
  rw [run, Event.readFrom]
  rfl

/-- One event, and the run from there on. -/
theorem run_piece {piece rest : List Char} {event : Event} (hreads : Event.Reads piece event rest)
    (hstep : s.step (index.position offset) event = .ok t) :
    run index s offset (piece ++ rest) = run index t (offset + byteLength piece) rest := by
  obtain ⟨c, cs, rfl, hfirst, -⟩ := hreads.first_eq
  rw [run, List.cons_append, Event.readFrom_cons offset hfirst, List.foldlM_cons, hstep]
  rfl

theorem extract_eq_run (cs : List Char) :
    extract (String.ofList cs) =
      (run (Text.LineIndex.ofSource cs) {} 0 cs).bind State.finish := by
  rw [extract, String.toList_ofList]
  rfl

/-! ### Text -/

@[simp] theorem append_nil (s : State) : s.append [] = s := by
  cases h : s.inBody <;> simp [State.append, h]

@[simp] theorem append_append (s : State) (cs ds : List Char) :
    (s.append cs).append ds = s.append (cs ++ ds) := by
  cases h : s.bodyDepth <;> simp [State.append, State.inBody, h]

/-- Text up to the next tag is one event. If there is none, nothing changes. -/
theorem run_text (cs : List Char) :
    run index s offset cs =
      run index (s.append (Entity.decodeAll (cs.takeWhile (· ≠ '<'))))
        (offset + byteLength (cs.takeWhile (· ≠ '<'))) (cs.dropWhile (· ≠ '<')) := by
  cases cs with
  | nil => simp [Entity.decodeAll_nil]
  | cons c cs =>
    by_cases hc : c = '<'
    · simp [hc, Entity.decodeAll_nil]
    · have htext : s.step (index.position offset) (.text (c :: cs.takeWhile (· ≠ '<'))) =
          .ok (s.append (Entity.decodeAll (c :: cs.takeWhile (· ≠ '<')))) := rfl
      have h := run_piece (Event.reads_text hc cs) htext
      rw [List.cons_append, List.takeWhile_append_dropWhile] at h
      simpa [hc] using h

/-- Escaped text adds what was escaped. What follows may be text as well: the two are one event
then. -/
theorem run_escape_append (cs rest : List Char) :
    run index s offset (escape cs ++ rest) =
      run index (s.append cs) (offset + byteLength (escape cs)) rest := by
  have hcs : ∀ c ∈ escape cs, decide (c ≠ '<') = true := by
    intro c hc
    simpa using ne_of_mem_escape hc
  rw [run_text (escape cs ++ rest), run_text rest, List.takeWhile_append_of_pos hcs,
    List.dropWhile_append_of_pos hcs, Entity.decodeAll_escape_append, Text.byteLength_append,
    append_append, Nat.add_assoc]

/-! ## Nodes -/

/-- The state behind markup with a given content, whose first body holds `body?`. Inside the body
all content counts; outside, that of the first body. -/
def State.past (s : State) (body? : Option (List Node)) (content : List Char) : State :=
  if s.inBody then { s with text := s.text ++ content }
  else if s.seenBody then s
  else
    match body? with
    | none => s
    | some children => { s with seenBody := true, text := s.text ++ contentAll children }

/-- The body, once it is open, is one of the open elements. -/
def State.Settled (s : State) : Prop :=
  ∀ depth ∈ s.bodyDepth, depth < s.elements.length ∧ s.seenBody = true

theorem past_none (s : State) (content : List Char) : s.past none content = s.append content := by
  cases h : s.inBody <;> simp [State.past, State.append, h]

theorem past_past (s : State) (first second : Option (List Node)) (cs ds : List Char) :
    (s.past first cs).past second ds = s.past (first.or second) (cs ++ ds) := by
  cases hin : s.bodyDepth with
  | some depth => simp [State.past, State.inBody, hin]
  | none =>
    cases hseen : s.seenBody with
    | true => simp [State.past, State.inBody, hin, hseen]
    | false => cases first <;> simp [State.past, State.inBody, hin, hseen]

theorem separate_eq (s : State) (name : Name) : s.separate name.element = s.append name.gap := by
  simp only [State.separate, Name.gap]
  split <;> simp

namespace State.Settled

theorem past (hs : s.Settled) (body? : Option (List Node)) (content : List Char) :
    (s.past body? content).Settled := by
  intro depth hdepth
  cases hin : s.bodyDepth with
  | some d =>
    have hd := hs d hin
    simp_all [State.past, State.inBody]
  | none =>
    cases hseen : s.seenBody <;> cases body? <;> simp_all [State.past, State.inBody]

theorem append (hs : s.Settled) (cs : List Char) : (s.append cs).Settled := by
  rw [← past_none]
  exact hs.past none cs

theorem openElement (hs : s.Settled) (name : String) (pos : Text.Position) :
    (s.openElement name pos).Settled := by
  intro depth hdepth
  simp only [State.openElement] at hdepth ⊢
  split at hdepth
  · simp_all
  · have h := hs depth hdepth
    rename_i hbody
    rw [if_neg hbody]
    exact ⟨Nat.lt_succ_of_lt h.1, h.2⟩

end State.Settled

/-- What an element does to the state: it sets words apart, is opened, takes in its children and is
closed again. -/
theorem closeElement_past (hs : s.Settled) (name : Name) (children : List Node)
    (start finish : Text.Position) :
    (((s.append name.gap).openElement name.element start).past (bodyIn? children)
        (contentAll children)).closeElement name.element finish =
      .ok (s.past (if name.element = "body" then some children else bodyIn? children)
        (name.gap ++ contentAll children ++ name.gap)) := by
  obtain ⟨elements, bodyDepth, seenBody, text⟩ := s
  cases bodyDepth with
  | some depth =>
    -- Inside the body, which is further out: closing sets words apart once more.
    have ⟨hdepth, hseen⟩ := hs depth rfl
    have hne : depth ≠ elements.length := Nat.ne_of_lt hdepth
    simp_all [State.append, State.openElement, State.past, State.closeElement, State.inBody,
      separate_eq]
  | none =>
    cases seenBody with
    | true =>
      simp [State.append, State.openElement, State.past, State.closeElement, State.inBody,
        separate_eq]
    | false =>
      by_cases hbody : name.element = "body"
      · simp [State.append, State.openElement, State.past, State.closeElement, State.inBody,
          hbody]
      · cases bodyIn? children <;>
          simp [State.append, State.openElement, State.past, State.closeElement, State.inBody,
            hbody, separate_eq]

/-! ### One tag -/

theorem run_startTag (name : Name) (hvoid : name.isVoid = false) (attributes : List Attribute)
    (rest : List Char) :
    run index s offset (startTag name attributes false ++ rest) =
      run index ((s.append name.gap).openElement name.element (index.position offset))
        (offset + byteLength (startTag name attributes false)) rest := by
  have hname : voidElements.contains (elementName name.chars) = false := hvoid
  refine run_piece (reads_startTag name attributes false rest) ?_
  simp only [State.step, hname, Bool.false_or, Bool.false_eq_true, if_false]
  rw [← separate_eq]
  rfl

theorem run_void (name : Name) (hvoid : name.isVoid = true) (attributes : List Attribute)
    (selfClosing : Bool) (rest : List Char) :
    run index s offset (startTag name attributes selfClosing ++ rest) =
      run index (s.append name.gap)
        (offset + byteLength (startTag name attributes selfClosing)) rest := by
  have hname : voidElements.contains (elementName name.chars) = true := hvoid
  refine run_piece (reads_startTag name attributes selfClosing rest) ?_
  simp only [State.step, hname, Bool.or_true, if_true]
  rw [← separate_eq]
  rfl

theorem run_endTag (name : Name) (hvoid : name.isVoid = false) (rest : List Char)
    (hclose : s.closeElement name.element (index.position offset) = .ok t) :
    run index s offset (endTag name ++ rest) =
      run index t (offset + byteLength (endTag name)) rest := by
  have hname : voidElements.contains (elementName name.chars) = false := hvoid
  refine run_piece (reads_endTag name rest) ?_
  simp only [State.step, hname, Bool.false_eq_true, if_false]
  exact hclose

/-! ### Whole nodes -/

theorem run_element {children : List Node}
    (ih : ∀ (s : State) (offset : Nat) (rest : List Char), s.Settled →
      run index s offset (renderAll children ++ rest) =
        run index (s.past (bodyIn? children) (contentAll children))
          (offset + byteLength (renderAll children)) rest)
    (name : Name) (hvoid : name.isVoid = false) (attributes : List Attribute) (hs : s.Settled)
    (rest : List Char) :
    run index s offset
        (startTag name attributes false ++ renderAll children ++ endTag name ++ rest) =
      run index (s.past (if name.element = "body" then some children else bodyIn? children)
          (name.gap ++ contentAll children ++ name.gap))
        (offset + byteLength (startTag name attributes false ++ renderAll children ++ endTag name))
        rest := by
  have hopen : ((s.append name.gap).openElement name.element (index.position offset)).Settled :=
    (hs.append _).openElement _ _
  have hclose := closeElement_past hs name children (index.position offset)
    (index.position (offset + byteLength (startTag name attributes false) +
      byteLength (renderAll children)))
  rw [List.append_assoc, List.append_assoc, run_startTag name hvoid, ih _ _ _ hopen,
    run_endTag name hvoid rest hclose, Text.byteLength_append, Text.byteLength_append,
    Nat.add_assoc, Nat.add_assoc, Nat.add_assoc]

mutual

/-- Reading the text of a node moves the state past the node. -/
theorem run_render (node : Node) (s : State) (offset : Nat) (rest : List Char) (hs : s.Settled) :
    run index s offset (node.render ++ rest) =
      run index (s.past node.body? node.content) (offset + byteLength node.render) rest := by
  cases node with
  | element name hvoid attributes children =>
    rw [Node.render, Node.body?, Node.content]
    exact run_element (run_renderAll children) name hvoid attributes hs rest
  | void name hvoid attributes selfClosing =>
    rw [Node.render, run_void name hvoid, Node.body?, Node.content, past_none]
  | text chars => rw [Node.render, run_escape_append, Node.body?, Node.content, past_none]
  | comment chars hchars =>
    rw [Node.render, run_piece (reads_comment hchars rest) rfl, Node.body?, Node.content,
      past_none, append_nil]
  | cdata chars hchars =>
    rw [Node.render, run_piece (reads_rawText hchars rest) rfl, Node.body?, Node.content,
      past_none]

theorem run_renderAll (nodes : List Node) (s : State) (offset : Nat) (rest : List Char)
    (hs : s.Settled) :
    run index s offset (renderAll nodes ++ rest) =
      run index (s.past (bodyIn? nodes) (contentAll nodes))
        (offset + byteLength (renderAll nodes)) rest := by
  cases nodes with
  | nil => simp [renderAll, bodyIn?, contentAll, past_none]
  | cons node nodes =>
    rw [renderAll, List.append_assoc, run_render node s offset _ hs,
      run_renderAll nodes _ _ _ (hs.past _ _), past_past, bodyIn?, contentAll,
      Text.byteLength_append, Nat.add_assoc]

end

/-! ## Descriptions -/

theorem run_document (forest : List Node) (index : Text.LineIndex) :
    run index {} 0 (renderAll forest) =
      .ok (({} : State).past (bodyIn? forest) (contentAll forest)) := by
  have hsettled : ({} : State).Settled := by
    intro depth hdepth
    cases hdepth
  rw [← List.append_nil (renderAll forest), run_renderAll forest {} 0 [] hsettled, run_nil]

theorem extract_of_body {forest children : List Node} (h : bodyIn? forest = some children) :
    extract (String.ofList (renderAll forest)) =
      .ok (String.ofList (Text.collapse (contentAll children))) := by
  rw [extract_eq_run, run_document, h]
  rfl

/-- The description that a document gives is the text content of its first body, with its blanks
collapsed; nothing else in the document matters. -/
theorem extract_renderAll (forest children : List Node) (h : bodyIn? forest = some children) :
    ∃ text, extract (String.ofList (renderAll forest)) = .ok text ∧
      Text.Collapses (contentAll children) text.toList ∧
      ∀ other, bodyIn? other = some children →
        extract (String.ofList (renderAll other)) = .ok text := by
  refine ⟨_, extract_of_body h, ?_, fun other hother => extract_of_body hother⟩
  rw [String.toList_ofList]
  exact Text.collapses_collapse _

def bodyName : Name := ⟨'B', ['o', 'd', 'y'], by decide, List.all_eq_true.mp (by decide)⟩

def paragraphName : Name := ⟨'p', [], by decide, by simp⟩

def lineBreakName : Name := ⟨'b', ['r'], by decide, List.all_eq_true.mp (by decide)⟩

/-- Texts around a block-level element, a void element, a comment, raw text and another `body`. -/
def mixedBody : List Node :=
  [.text ['a', '<'], .text ['&', 'l', 't', ';'],
    .element paragraphName (by decide) [] [.text ['b']], .void lineBreakName (by decide) [] true,
    .comment ['-', '>'] (by decide), .cdata [']', '<', ']'] (by decide),
    .element bodyName (by decide) [] [.text ['c']]]

/-- Text in front of a body, and a second body behind it. -/
def mixedDocument : List Node :=
  [.text ['x', '&', 'y'],
    .element bodyName (by decide)
      [⟨⟨'i', ['d'], by decide, List.all_eq_true.mp (by decide)⟩, ['>', '<'], by decide⟩]
      mixedBody,
    .element bodyName (by decide) [] [.text ['d']]]

theorem extract_renderAll_mixed : bodyIn? mixedDocument = some mixedBody ∧
    contentAll mixedBody = "a<&lt; b  ]<]c".toList ∧
    ∃ text, extract (String.ofList (renderAll mixedDocument)) = .ok text ∧
      Text.Collapses (contentAll mixedBody) text.toList ∧
      ∀ other, bodyIn? other = some mixedBody →
        extract (String.ofList (renderAll other)) = .ok text :=
  ⟨rfl, by decide, extract_renderAll mixedDocument mixedBody rfl⟩

end Body

end ApiDoc.Markup
