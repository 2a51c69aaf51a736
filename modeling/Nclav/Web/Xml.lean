import Mathlib

/-!
# XML documents, and the texts of a tag

A reader gives a document out as events. `allTexts` collects the texts of a tag from them and keeps
nothing but a depth; on the events of a document these are the texts that the document has directly
under an outermost element of the tag (`allTexts_events`).
-/

namespace Xml

/-- What a reader gives out, up to the end of the document or its first error. -/
inductive XmlEvent : Type where
  | start (localName : String)
  | end_
  /-- a text, or nothing where it cannot be unescaped -/
  | text (unescaped : Option String)
  /-- an empty element, a comment, a declaration -/
  | other
  deriving DecidableEq

/-- The loop. The depth is 0 outside the tag and 1 directly within it. -/
def collect (tag : String) : (depth : Nat) → List XmlEvent → List String
  | _, [] => []
  | depth, .start name :: events =>
    collect tag (if depth = 0 then (if name = tag then 1 else 0) else depth + 1) events
  | depth, .end_ :: events => collect tag (depth - 1) events
  | depth, .text unescaped :: events =>
    (if depth = 1 then unescaped.toList else []) ++ collect tag depth events
  | depth, .other :: events => collect tag depth events

/-- The texts of the elements with this tag. -/
def allTexts (events : List XmlEvent) (tag : String) : List String := collect tag 0 events

/-! ## Documents -/

/-- Elements and texts one after the other. -/
inductive Content : Type where
  | nil
  | text (s : String) (rest : Content)
  | element (tag : String) (children rest : Content)

namespace Content

def events : Content → List XmlEvent
  | nil => []
  | text s rest => .text (some s) :: rest.events
  | element tag children rest => .start tag :: children.events ++ .end_ :: rest.events

/-- The texts that are not within an element. -/
def ownTexts : Content → List String
  | nil => []
  | text s rest => s :: rest.ownTexts
  | element _ _ rest => rest.ownTexts

/-- The texts directly under the outermost elements with this tag. -/
def textsOf (tag : String) : Content → List String
  | nil => []
  | text _ rest => rest.textsOf tag
  | element name children rest =>
    (if name = tag then children.ownTexts else children.textsOf tag) ++ rest.textsOf tag

/-- Elements with one tag, a content in each. -/
def elements (tag : String) : List Content → Content
  | [] => nil
  | c :: cs => element tag c (elements tag cs)

end Content

open Content

variable (tag : String) (c : Content) (events : List XmlEvent)

/-- Two elements deep the loop collects nothing. -/
theorem collect_deep (depth : Nat) :
    collect tag (depth + 2) (c.events ++ events) = collect tag (depth + 2) events := by
  induction c generalizing depth events with
  | nil => rfl
  | text s rest ih => exact ih events depth
  | element name children rest ihc ih =>
    calc collect tag (depth + 2) ((element name children rest).events ++ events)
        = collect tag (depth + 1 + 2) (children.events ++ .end_ :: (rest.events ++ events)) := by
          rw [Content.events, List.append_assoc]
          rfl
      _ = collect tag (depth + 2) (rest.events ++ events) := ihc _ (depth + 1)
      _ = collect tag (depth + 2) events := ih events depth

theorem collect_within :
    collect tag 1 (c.events ++ events) = c.ownTexts ++ collect tag 1 events := by
  induction c with
  | nil => rfl
  | text s rest ih => exact congrArg (s :: ·) ih
  | element name children rest _ ih =>
    calc collect tag 1 ((element name children rest).events ++ events)
        = collect tag 2 (children.events ++ .end_ :: (rest.events ++ events)) := by
          rw [Content.events, List.append_assoc]
          rfl
      _ = collect tag 1 (rest.events ++ events) := collect_deep tag children _ 0
      _ = rest.ownTexts ++ collect tag 1 events := ih

theorem collect_outside :
    collect tag 0 (c.events ++ events) = c.textsOf tag ++ collect tag 0 events := by
  induction c generalizing events with
  | nil => rfl
  | text s rest ih => exact ih events
  | element name children rest ihc ih =>
    have hstart : collect tag 0 ((element name children rest).events ++ events) =
        collect tag (if name = tag then 1 else 0)
          (children.events ++ .end_ :: (rest.events ++ events)) := by
      rw [Content.events, List.append_assoc]
      rfl
    rw [hstart, textsOf, List.append_assoc]
    by_cases hname : name = tag
    -- elements of the tag within this one are left out by the loop and by `ownTexts`
    · rw [if_pos hname, if_pos hname, collect_within]
      exact congrArg (children.ownTexts ++ ·) (ih events)
    · rw [if_neg hname, if_neg hname, ihc]
      exact congrArg (children.textsOf tag ++ ·) (ih events)

/-- The loop reads a document right. -/
theorem allTexts_events : allTexts c.events tag = c.textsOf tag := by
  have h := collect_outside tag c []
  rw [List.append_nil] at h
  exact h.trans (List.append_nil _)

end Xml
