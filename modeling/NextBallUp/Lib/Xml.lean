import NextBallUp.Lib.Json
import NextBallUp.Lib.Texts
import Mathlib.Tactic.SplitIfs

/-!
# XML

Documents of elements and texts, as Python's `xml.etree.ElementTree` indents and writes them.

## Main definitions

* `Element`: an element, by its children with the texts around them
* `Element.indent`, `Element.tostring`: what is written
* `Mode`, `Mode.step`, `read`: a reader of such documents
* `Element.IsWellFormed`: the elements whose texts can be read

## Main results

* `run_tostring`: an element that was written is read as a child
* `read_document`: **a document that was written is read back**
* `Element.IsWellFormed.indent`: indentation keeps an element well formed

## What is deliberately absent

Attributes, comments, processing instructions and namespaces, which are not written. Carriage
returns in texts, which a reader may take for line breaks.
-/

namespace Xml

/-- An element with its children, each after the text that stands before it, and the text at the
end. -/
inductive Element
  | mk (tag : List ℕ) (content : List (List ℕ × Element)) (text : List ℕ)

namespace Element

def tag : Element → List ℕ
  | mk tag _ _ => tag

def content : Element → List (List ℕ × Element)
  | mk _ content _ => content

/-- Of an element without children it is the whole text. -/
def text : Element → List ℕ
  | mk _ _ text => text

/-- `element.findall(tag)` -/
def findall (e : Element) (tag : String) : List Element :=
  (e.content.map Prod.snd).filter fun child => child.tag = tag.codePoints

/-- `element.findtext(tag)`, for a child without children. -/
def findtext (e : Element) (tag : String) : Option (List ℕ) := (e.findall tag).head?.map text

end Element

/-! ### Writing -/

/-- A line break, and the indentation of a level. -/
def indentation (level : ℕ) : List ℕ := 10 :: List.replicate (2 * level) 32

/-- White space gives way to the indentation. -/
def indentText (level : ℕ) (text : List ℕ) : List ℕ :=
  if text.all isSpace then indentation level else text

mutual

/-- `ElementTree.indent(element, space="  ", level)` -/
def Element.indent (level : ℕ) : Element → Element
  | .mk tag [] text => .mk tag [] text
  | .mk tag (child :: rest) text =>
    .mk tag (indentContent (level + 1) (child :: rest)) (indentText level text)

def indentContent (level : ℕ) : List (List ℕ × Element) → List (List ℕ × Element)
  | [] => []
  | (before, child) :: rest =>
    (indentText level before, child.indent level) :: indentContent level rest

end

/-- `_escape_cdata` -/
def escape (text : List ℕ) : List ℕ :=
  text.flatMap fun c =>
    if c = 38 then "&amp;".codePoints
    else if c = 60 then "&lt;".codePoints
    else if c = 62 then "&gt;".codePoints
    else [c]

mutual

/-- `ElementTree.tostring(element, encoding="unicode", short_empty_elements=False)` -/
def Element.tostring : Element → List ℕ
  | .mk tag content text =>
    60 :: (tag ++ 62 :: (contentText content ++ (escape text ++ 60 :: 47 :: (tag ++ [62]))))

def contentText : List (List ℕ × Element) → List ℕ
  | [] => []
  | (before, child) :: rest => escape before ++ (child.tostring ++ contentText rest)

end

/-! ### Reading -/

/-- An element that has not ended. -/
structure Frame where
  tag : List ℕ
  content : List (List ℕ × Element)
  text : List ℕ

inductive Mode
  /-- Before the first element. -/
  | prolog
  /-- Within an element. -/
  | content (frame : Frame) (stack : List Frame)
  /-- After `&`. -/
  | reference (frame : Frame) (stack : List Frame) (name : List ℕ)
  /-- After `<`. -/
  | startTag (stack : List Frame) (name : List ℕ)
  /-- After `</`. -/
  | endTag (frame : Frame) (stack : List Frame) (name : List ℕ)
  | done (root : Element)

/-- Letters, digits and underscores. -/
def isNameChar (c : ℕ) : Bool :=
  (65 ≤ c && c ≤ 90) || (97 ≤ c && c ≤ 122) || (48 ≤ c && c ≤ 57) || c = 95

/-- The characters of a text. -/
def isChar (c : ℕ) : Bool :=
  c = 9 || c = 10 || (32 ≤ c && c ≤ 0xD7FF) || (0xE000 ≤ c && c ≤ 0xFFFD) ||
    (0x10000 ≤ c && c ≤ 0x10FFFF)

def entity (name : List ℕ) : Option ℕ :=
  if name = "amp".codePoints then some 38
  else if name = "lt".codePoints then some 60
  else if name = "gt".codePoints then some 62
  else if name = "quot".codePoints then some 34
  else if name = "apos".codePoints then some 39
  else none

/-- The element ends. -/
def Frame.close (frame : Frame) : List Frame → Mode
  | [] => .done (.mk frame.tag frame.content frame.text)
  | parent :: stack =>
    let child := Element.mk frame.tag frame.content frame.text
    .content { parent with content := parent.content ++ [(parent.text, child)], text := [] } stack

namespace Mode

def step : Mode → ℕ → Option Mode
  | .prolog, c =>
    if c = 60 then some (.startTag [] []) else if isSpace c then some .prolog else none
  | .content frame stack, c =>
    if c = 60 then some (.startTag (frame :: stack) [])
    else if c = 38 then some (.reference frame stack [])
    else if isChar c then some (.content { frame with text := frame.text ++ [c] } stack)
    else none
  | .reference frame stack name, c =>
    if c = 59 then
      (entity name).map fun d => .content { frame with text := frame.text ++ [d] } stack
    else some (.reference frame stack (name ++ [c]))
  | .startTag stack name, c =>
    if isNameChar c then some (.startTag stack (name ++ [c]))
    else if c = 62 ∧ name ≠ [] then some (.content ⟨name, [], []⟩ stack)
    else
      match stack with
      | frame :: stack => if c = 47 ∧ name = [] then some (.endTag frame stack []) else none
      | [] => none
  | .endTag frame stack name, c =>
    if isNameChar c then some (.endTag frame stack (name ++ [c]))
    else if c = 62 ∧ name = frame.tag then some (frame.close stack)
    else none
  | .done root, c => if isSpace c then some (.done root) else none

def run : Mode → List ℕ → Option Mode
  | mode, [] => some mode
  | mode, c :: text => (mode.step c).bind fun mode => mode.run text

end Mode

/-- The declaration of a document. -/
def declaration : List ℕ := "<?xml version=\"1.0\" encoding=\"UTF-8\"?>".codePoints

/-- The element of a document. -/
def read (text : List ℕ) : Option Element :=
  if declaration <+: text then
    match Mode.prolog.run (text.drop declaration.length) with
    | some (.done root) => some root
    | _ => none
  else none

/-! ### What was written is read -/

def IsName (name : List ℕ) : Prop := name ≠ [] ∧ ∀ c ∈ name, isNameChar c = true

def IsText (text : List ℕ) : Prop := ∀ c ∈ text, isChar c = true

instance (name : List ℕ) : Decidable (IsName name) := inferInstanceAs (Decidable (_ ∧ _))

instance (text : List ℕ) : Decidable (IsText text) := inferInstanceAs (Decidable (∀ c ∈ text, _))

mutual

def Element.IsWellFormed : Element → Prop
  | .mk tag content text => IsName tag ∧ IsWellFormedContent content ∧ IsText text

def IsWellFormedContent : List (List ℕ × Element) → Prop
  | [] => True
  | (before, child) :: rest => IsText before ∧ child.IsWellFormed ∧ IsWellFormedContent rest

end

namespace Mode

variable {frame : Frame} {stack : List Frame} {mode mode' : Mode}

theorem run_cons {c : ℕ} (h : mode.step c = some mode') (text : List ℕ) :
    mode.run (c :: text) = mode'.run text := by
  rw [run, h, Option.bind_some]

theorem run_startTag {name : List ℕ} (h : ∀ c ∈ name, isNameChar c = true) (s text : List ℕ) :
    (startTag stack s).run (name ++ text) = (startTag stack (s ++ name)).run text := by
  induction name generalizing s with
  | nil => rw [List.append_nil, List.nil_append]
  | cons c name ih =>
    have hstep : (startTag stack s).step c = some (startTag stack (s ++ [c])) :=
      if_pos (h c List.mem_cons_self)
    rw [List.cons_append, run_cons hstep, ih fun d hd => h d (List.mem_cons_of_mem _ hd),
      List.append_assoc]
    rfl

theorem run_endTag {name : List ℕ} (h : ∀ c ∈ name, isNameChar c = true) (s text : List ℕ) :
    (endTag frame stack s).run (name ++ text) = (endTag frame stack (s ++ name)).run text := by
  induction name generalizing s with
  | nil => rw [List.append_nil, List.nil_append]
  | cons c name ih =>
    have hstep : (endTag frame stack s).step c = some (endTag frame stack (s ++ [c])) :=
      if_pos (h c List.mem_cons_self)
    rw [List.cons_append, run_cons hstep, ih fun d hd => h d (List.mem_cons_of_mem _ hd),
      List.append_assoc]
    rfl

/-- A text is read as it was before it was escaped. -/
theorem run_escape {s : List ℕ} (h : IsText s) (frame : Frame) (text : List ℕ) :
    (content frame stack).run (escape s ++ text) =
      (content { frame with text := frame.text ++ s } stack).run text := by
  induction s generalizing frame with
  | nil =>
    rw [List.append_nil]
    rfl
  | cons c s ih =>
    have hrest := ih (fun d hd => h d (List.mem_cons_of_mem _ hd))
      { frame with text := frame.text ++ [c] }
    rw [List.append_assoc] at hrest
    show (content frame stack).run (((if c = 38 then "&amp;".codePoints
      else if c = 60 then "&lt;".codePoints
      else if c = 62 then "&gt;".codePoints else [c]) ++ escape s) ++ text) = _
    rw [List.append_assoc]
    split_ifs with hamp hlt hgt
    · subst hamp
      exact hrest
    · subst hlt
      exact hrest
    · subst hgt
      exact hrest
    · have hstep : (content frame stack).step c =
          some (content { frame with text := frame.text ++ [c] } stack) := by
        show (if c = 60 then _ else if c = 38 then _ else if isChar c = true then _ else none) = _
        rw [if_neg hlt, if_neg hamp, if_pos (h c List.mem_cons_self)]
      rw [List.singleton_append, run_cons hstep]
      exact hrest

/-- The end tag of an element. -/
theorem run_close (frame : Frame) (h : IsName frame.tag) (text : List ℕ) :
    (content frame stack).run (60 :: 47 :: (frame.tag ++ 62 :: text)) =
      (frame.close stack).run text := by
  have hlt : (content frame stack).step 60 = some (startTag (frame :: stack) []) := rfl
  have hslash : (startTag (frame :: stack) []).step 47 = some (endTag frame stack []) := rfl
  have hgt : (endTag frame stack frame.tag).step 62 = some (frame.close stack) :=
    if_pos ⟨rfl, rfl⟩
  rw [run_cons hlt, run_cons hslash, run_endTag h.2, List.nil_append, run_cons hgt]

/-- The start tag of an element, wherever one may begin. -/
theorem run_open {name : List ℕ} (h : IsName name) (text : List ℕ) :
    (startTag stack []).run (name ++ 62 :: text) = (content ⟨name, [], []⟩ stack).run text := by
  have hgt : (startTag stack name).step 62 = some (content ⟨name, [], []⟩ stack) :=
    if_pos ⟨rfl, h.1⟩
  rw [run_startTag h.2, List.nil_append, run_cons hgt]

mutual

/-- **An element is read as a child** of the element around it. -/
theorem run_tostring : ∀ (e : Element), e.IsWellFormed → ∀ (stack : List Frame) (text : List ℕ),
    (startTag stack []).run (e.tostring.tail ++ text) =
      (Frame.close ⟨e.tag, e.content, e.text⟩ stack).run text
  | .mk tag children s, h, stack, text => by
    obtain ⟨htag, hchildren, hs⟩ := h
    show (startTag stack []).run ((tag ++ 62 :: (contentText children ++
      (escape s ++ 60 :: 47 :: (tag ++ [62])))) ++ text) = _
    rw [List.append_assoc, List.cons_append, run_open htag, List.append_assoc,
      run_contentText children hchildren, List.append_assoc, run_escape hs]
    show (content ⟨tag, [] ++ children, [] ++ s⟩ stack).run
      (60 :: 47 :: ((tag ++ [62]) ++ text)) = _
    rw [List.append_assoc]
    exact run_close ⟨tag, [] ++ children, [] ++ s⟩ htag text

/-- The children are added to those that are there. -/
theorem run_contentText : ∀ (children : List (List ℕ × Element)), IsWellFormedContent children →
    ∀ {tag : List ℕ} {before : List (List ℕ × Element)} {stack : List Frame} (text : List ℕ),
    (content ⟨tag, before, []⟩ stack).run (contentText children ++ text) =
      (content ⟨tag, before ++ children, []⟩ stack).run text
  | [], _, _, _, _, _ => by
    rw [List.append_nil]
    rfl
  | (s, .mk tag' children' s') :: rest, h, tag, before, stack, text => by
    obtain ⟨hs, hchild, hrest⟩ := h
    have hlt (frame : Frame) :
        (content frame stack).step 60 = some (startTag (frame :: stack) []) :=
      rfl
    have hcons : (Element.mk tag' children' s').tostring =
        60 :: (Element.mk tag' children' s').tostring.tail := rfl
    show (content ⟨tag, before, []⟩ stack).run ((escape s ++
      ((Element.mk tag' children' s').tostring ++ contentText rest)) ++ text) = _
    rw [List.append_assoc, run_escape hs, List.append_assoc, hcons, List.cons_append,
      run_cons (hlt _), run_tostring (.mk tag' children' s') hchild]
    show (content ⟨tag, before ++ [([] ++ s, .mk tag' children' s')], []⟩ stack).run
      (contentText rest ++ text) = _
    rw [run_contentText rest hrest, List.append_assoc]
    rfl

end

end Mode

/-- **A document is read back.** -/
theorem read_document {e : Element} (h : e.IsWellFormed) :
    read (declaration ++ 10 :: (e.tostring ++ [10])) = some e := by
  have hspace : Mode.prolog.step 10 = some .prolog := rfl
  have hlt : Mode.prolog.step 60 = some (.startTag [] []) := rfl
  have hrun : Mode.prolog.run (10 :: (e.tostring ++ [10])) = some (.done e) := by
    cases e with
    | mk tag content text =>
      have hcons : (Element.mk tag content text).tostring =
          60 :: (Element.mk tag content text).tostring.tail := rfl
      rw [Mode.run_cons hspace, hcons, List.cons_append, Mode.run_cons hlt, Mode.run_tostring _ h]
      rfl
  rw [read, if_pos (List.prefix_append _ _), List.drop_left, hrun]

/-! ### Indentation -/

theorem isText_indentText {text : List ℕ} (level : ℕ) (h : IsText text) :
    IsText (indentText level text) := by
  unfold indentText
  split
  · intro c hc
    rcases List.mem_cons.mp hc with rfl | hc
    · rfl
    · rw [(List.mem_replicate.mp hc).2]
      rfl
  · exact h

mutual

theorem Element.IsWellFormed.indent : ∀ {e : Element} (level : ℕ), e.IsWellFormed →
    (e.indent level).IsWellFormed
  | .mk _ [] _, _, h => h
  | .mk _ (child :: rest) _, level, h =>
    ⟨h.1, isWellFormedContent_indentContent (child :: rest) (level + 1) h.2.1,
      isText_indentText level h.2.2⟩

theorem isWellFormedContent_indentContent : ∀ (children : List (List ℕ × Element)) (level : ℕ),
    IsWellFormedContent children → IsWellFormedContent (indentContent level children)
  | [], _, _ => trivial
  | (_, child) :: rest, level, h =>
    ⟨isText_indentText level h.1, Element.IsWellFormed.indent (e := child) level h.2.1,
      isWellFormedContent_indentContent rest level h.2.2⟩

end

/-- Texts without children stay as they are, and so do all tags. -/
theorem Element.tag_indent (level : ℕ) (e : Element) : (e.indent level).tag = e.tag := by
  match e with
  | .mk _ [] _ => rfl
  | .mk _ (_ :: _) _ => rfl

theorem indentContent_eq_map (level : ℕ) (children : List (List ℕ × Element)) :
    indentContent level children =
      children.map fun c => (indentText level c.1, c.2.indent level) := by
  induction children with
  | nil => rfl
  | cons child rest ih =>
    obtain ⟨before, e⟩ := child
    rw [List.map_cons, ← ih]
    rfl

/-- The children of an element are indented one level more. -/
theorem Element.findall_indent (level : ℕ) (e : Element) (tag : String) :
    (e.indent level).findall tag = (e.findall tag).map (Element.indent (level + 1)) := by
  match e with
  | .mk _ [] _ => rfl
  | .mk _ (child :: rest) _ =>
    have htag : (fun c : Element => decide (c.tag = tag.codePoints)) ∘ Element.indent (level + 1) =
        fun c : Element => decide (c.tag = tag.codePoints) := by
      funext c
      show decide ((c.indent (level + 1)).tag = tag.codePoints) = _
      rw [tag_indent]
    show ((indentContent (level + 1) (child :: rest)).map Prod.snd).filter _ = _
    rw [indentContent_eq_map, List.map_map,
      show Prod.snd ∘ (fun c : List ℕ × Element => (indentText (level + 1) c.1,
        c.2.indent (level + 1))) = Element.indent (level + 1) ∘ Prod.snd from rfl,
      ← List.map_map, List.filter_map, htag]
    rfl

end Xml
