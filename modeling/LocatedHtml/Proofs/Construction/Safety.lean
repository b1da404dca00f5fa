import LocatedHtml.Proofs.Construction.Steps
import LocatedHtml.Proofs.SourceLocations

/-!
What could go wrong while a construction goes on: an extent that is recorded may be no extent, and an
element that something is put into may not be there. The extents of a document are all made from its
lexemes and the texts between them, and whichever elements end and whichever stages are entered, what
stands open is in the document.
-/

namespace LocatedHtml

variable {x : Lexeme} {q : Extent → Prop}

/-- The extents that are made for a lexeme, those of attributes included. Text starts with an extent that
is still empty. -/
def Lexeme.extents (x : Lexeme) : List Extent :=
  match x.token with
  | .text _ => [.ofMark x.start x.start.offset]
  | .startTag _ _ _ => (Construction.startTagLocation x).extents
  | .endTag _ => [.ofMark x.start x.stop.offset]
  | .comment _ | .instruction _ | .declaration _ => [.ofMark x.start x.remarkStop]
  | .skipped => []

/-- All extents that the location of a node records are as they should be. -/
def Node.Records (q : Extent → Prop) (v : Node) : Prop :=
  ∀ location ∈ v.location, ∀ e ∈ location.extents, q e

namespace Node.Records

variable {content : Content} {location : Location}

theorem unlocated (content : Content) : Node.Records q ⟨content, none⟩ := by
  rintro _ ⟨⟩

theorem located (all : ∀ e ∈ location.extents, q e) : Node.Records q ⟨content, some location⟩ := by
  rintro _ ⟨⟩
  exact all

theorem plain {extent : Extent} (holds : q extent) (bare : extent.attributes = none) :
    Node.Records q ⟨content, some (.plain extent)⟩ := by
  apply located
  simpa [Location.extents, Extent.withAttributes, bare] using holds

/-- An end tag adds its own extent to what a location records. -/
theorem ended {start : Mark} {stop : Nat} (records : Node.Records q ⟨content, some location⟩)
    (holds : q (.ofMark start stop)) :
    Node.Records q ⟨content, some (location.withEndTag (.ofMark start stop))⟩ := by
  have earlier := records location rfl
  cases location with
  | plain extent => exact records
  | element startTag endTag given =>
    apply located
    simp only [Location.extents, Location.withEndTag, List.mem_append, or_imp, forall_and] at earlier ⊢
    refine ⟨⟨earlier.1.1, ?_⟩, earlier.2⟩
    simpa [Extent.withAttributes, Extent.ofMark] using holds

end Node.Records

theorem nodeFact_records (all : ∀ e ∈ x.extents, q e) : NodeFact (fun _ t => t.value.Records q) x where
  started above name attributes selfClosing token := by
    simp only [Lexeme.extents, token] at all
    exact ⟨.located all, fun _ _ => .located all⟩
  ended above e token records := by
    simp only [Lexeme.extents, token, List.mem_singleton, forall_eq] at all
    exact Node.Records.ended records all
  comment above value token := by
    simp only [Lexeme.extents, Lexeme.remarkStop, token, List.mem_singleton, forall_eq] at all
    exact .plain all rfl
  instruction above value token := by
    simp only [Lexeme.extents, Lexeme.remarkStop, token, List.mem_singleton, forall_eq] at all
    exact .plain all rfl
  declaration above value token := by
    simp only [Lexeme.extents, Lexeme.remarkStop, token, List.mem_singleton, forall_eq] at all
    exact .plain all rfl

theorem shellFact_records (all : ∀ e ∈ x.extents, q e) :
    ShellFact (fun name shell => (shell.node name).Records q) x where
  more name shell attributes selfClosing _ _ records := records
  started name attributes selfClosing token := by
    simp only [Lexeme.extents, token] at all
    exact .located all
  ended name shell token records := by
    simp only [Lexeme.extents, token, List.mem_singleton, forall_eq] at all
    exact Shell.close_node records fun _ before => Node.Records.ended before all

namespace Construction

variable {s r : Construction} {straight : Prop}

/-- The body is there when it is open or has ended. What stands open is in the document as it stands, each
element in the one before it, and what comes next becomes the last child of the last of them. -/
structure Rooted (s : Construction) : Prop where
  body : s.stage = .inBody ∨ s.stage = .afterBody → s.body.isSome = true
  place : ∀ t, Inserted t s.openPath s.soFar (s.append t).soFar

/-- The elements and the structural elements are in order, so nothing is put where nothing is. -/
structure Coherent (s : Construction) : Prop where
  sound : s.Sound Placed
  ordered : s.Ordered

namespace Coherent

theorem rooted (coherent : s.Coherent) : s.Rooted where
  body := coherent.ordered.body
  place := openPath_inserted coherent.sound coherent.ordered

theorem settles (coherent : s.Coherent) (settles : Settles straight s r) : r.Coherent := by
  induction settles with
  | done => exact coherent
  | @outward s r e outer inside _ ih =>
    apply ih
    have ended : s.close 1 = append { s with opened := outer } e.toTree := close_succ inside 0
    rw [← ended]
    exact ⟨coherent.sound.close 1, ordered_stepwise.close 1 coherent.ordered⟩
  | @enter s r stage body advance _ _ _ _ ih =>
    apply ih
    refine ⟨?_, ordered_stepwise.advance s stage body advance coherent.ordered⟩
    -- Nothing is open, so nothing ends and the content stays.
    apply (coherent.sound.enter stage).congr
    · unfold Construction.enter
      rw [closeAll_settled advance.settled]
      rfl
    · exact advance.settled.trans (enter_opened s stage).symm
    · rfl

theorem endText (placed : s.WellPlaced) (ordered : s.Ordered) (stop : Nat) :
    (s.endText stop).Coherent := ⟨placed.endText stop, ordered_stepwise.endText stop ordered⟩

end Coherent

end Construction

end LocatedHtml
