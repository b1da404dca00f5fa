import LocatedHtml.Proofs.Construction.Deliveries
import LocatedHtml.Proofs.Construction.Safety
import LocatedHtml.Proofs.Lexing.Refusals
import LocatedHtml.Proofs.Nested.Positions

/-!
A source is refused for a marked section or for a number with too many digits, and for nothing else.
Every other source is read up to a tree, and nothing goes wrong on the way: lexemes move on, lines are
found in the table of line starts, extents pass their checks, and what is put into an element finds the
element there.
-/

namespace LocatedHtml

/-- What the table of line starts tells of the start of an extent is found there, and the numbers pass
the checks of a new extent. -/
structure Extent.Accepted (table : LineTable) (e : Extent) : Prop where
  place : table.position e.start = e.position
  line : ∃ lineStart, table.starts[e.position.line]? = some lineStart ∧
    (lineStart + e.position.column : Int) = e.start
  checked : Extent.ofOneIndexed (e.position.line + 1) (e.position.column + 1) e.start e.stop e.attributes =
    .ok e

/-- Open text can end at an offset, and whatever else ends there and whichever stages are entered, what
stands open is in the document. -/
structure Construction.SafeAt (table : LineTable) (offset : Nat) (s : Construction) : Prop where
  text : ∀ o ∈ s.openText, (Extent.ofMark o.start offset).Accepted table
  rooted : s.Rooted
  settled : ∀ r, Settles False (s.endText offset) r → r.Rooted

/-- The lexeme comes next behind others, it takes at least one character, and nothing fails at it. -/
structure SafeStep (source : Text) (xs : List Lexeme) (x : Lexeme) : Prop where
  begins : x.start = Mark.origin.after (taken xs)
  progress : x.start.offset < x.stop.offset
  inside : x.stop.offset ≤ source.length
  extents : ∀ e ∈ x.extents, e.Accepted (.ofText source)
  safe : (xs.foldl Construction.add {}).SafeAt (.ofText source) x.start.offset

/-- Nothing fails at any lexeme and at the end of the source, and the tree has only extents that have
passed their checks. -/
structure SafeReading (source : Text) (xs : List Lexeme) (tree : HtmlTree) : Prop where
  steps : ∀ front x back, xs = front ++ x :: back → SafeStep source front x
  finish : (xs.foldl Construction.add {}).SafeAt (.ofText source) source.length
  recorded : ∀ t ∈ tree.subtrees, t.value.Records (·.Accepted (.ofText source))

variable {source before t : Text} {x : Lexeme} {xs : List Lexeme} {s : Construction} {e : Extent}

/-- An extent that starts inside of the source and does not end before that passes its checks. -/
theorem Extent.StartsIn.accepted (starts : e.StartsIn source) (forward : e.start ≤ e.stop) :
    e.Accepted (.ofText source) := by
  obtain ⟨n, start⟩ := Int.eq_ofNat_of_zero_le starts.nonneg
  have bound : n ≤ source.length := by
    have inside := starts.inside
    omega
  have place : (LineTable.ofText source).position e.start = e.position := by
    have line := starts.line
    have column := starts.column
    rw [start, Int.toNat_natCast] at line column
    rw [start, LineTable.position_eq bound, Position.after_origin, ← line, ← column]
  refine ⟨place, ?_, ?_⟩
  · obtain ⟨lineStart, found, back⟩ := LineTable.exists_start bound
    rw [← start, place] at found back
    exact ⟨lineStart, found, by rw [start]; exact_mod_cast back⟩
  · have one : ((e.position.line : Int) + 1 < 1 || (e.position.column : Int) + 1 < 1) = false := by
      simp only [Bool.or_eq_false_iff, decide_eq_false_iff_not]
      omega
    unfold Extent.ofOneIndexed
    rw [one, if_neg Bool.false_ne_true, if_neg (by omega), Int.add_sub_cancel, Int.add_sub_cancel,
      Int.toNat_natCast, Int.toNat_natCast]
    -- An extent holds others, so it has no eta rule.
    cases e
    rfl

theorem attributeExtents_forward {m : Mark} {tag : Text} :
    ∀ entry ∈ attributeExtents m tag, entry.2.start ≤ entry.2.stop := by
  intro entry member
  rcases OrderedMap.mem_insertAllNew member with none | member
  · cases none
  · obtain ⟨piece, inside, rfl⟩ := List.mem_map.1 member
    exact (attributePieces_in _ _).forward piece inside

theorem Chained.inSource {start : Mark} (chained : Chained start t xs) (whole : source = before ++ t)
    (begins : start = Mark.origin.after before) : ∀ x ∈ xs, x.InSource source := by
  induction chained generalizing before with
  | nil => exact List.forall_mem_nil _
  | @cons x rest xs nonempty reads _ ih =>
    rw [← List.append_assoc] at whole
    refine List.forall_mem_cons.2 ⟨⟨⟨before, rest, whole, begins⟩, nonempty, reads⟩, ih whole ?_⟩
    rw [Lexeme.stop, begins, Mark.after_append]

theorem Chained.reaches {front back : List Lexeme} (chained : Chained .origin source xs)
    (split_ : xs = front ++ x :: back) :
    x.Behind front ∧ x.InSource source ∧ ∃ rest, source = taken (front ++ [x]) ++ rest := by
  have member : x ∈ xs := by simp [split_]
  have part : front ++ [x] <+: xs := ⟨back, by simp [split_]⟩
  exact ⟨chained.behind split_, chained.inSource (List.nil_append source).symm rfl x member,
    chained.take part⟩

theorem Lexeme.InSource.accepted (here : x.InSource source) :
    ∀ e ∈ x.extents, e.Accepted (.ofText source) := by
  have plain (stop : Nat) (forward : x.start.offset ≤ stop) :
      (Extent.ofMark x.start stop).Accepted (.ofText source) :=
    (here.startsIn stop none).accepted (Int.ofNat_le.2 forward)
  have behind : x.start.offset ≤ x.stop.offset := Nat.le_add_right _ _
  have remark : x.start.offset ≤ x.remarkStop := by
    unfold Lexeme.remarkStop
    split
    · omega
    · exact behind
  intro e member
  unfold Lexeme.extents at member
  split at member
  · rw [List.mem_singleton.1 member]
    exact plain _ (Nat.le_refl _)
  · have tag : e ∈ Extent.withAttributes { Extent.ofMark x.start x.stop.offset with
        attributes := some (attributeExtents x.start x.raw) } := by
      simpa [Construction.startTagLocation, Location.extents] using member
    rcases List.mem_cons.1 tag with rfl | inner
    · exact (here.startsIn _ _).accepted (Int.ofNat_le.2 behind)
    · obtain ⟨entry, listed, rfl⟩ := List.mem_map.1 inner
      exact (here.attributes entry listed).accepted (attributeExtents_forward entry listed)
  · rw [List.mem_singleton.1 member]
    exact plain _ behind
  · rw [List.mem_singleton.1 member]
    exact plain _ remark
  · rw [List.mem_singleton.1 member]
    exact plain _ remark
  · rw [List.mem_singleton.1 member]
    exact plain _ remark
  · cases member

namespace Construction

/-- What some lexemes have made is true of the source, and its extents have passed their checks. -/
structure Checked (source : Text) (xs : List Lexeme) (s : Construction) : Prop where
  follows : Follows source (taken xs) s
  ordered : s.Ordered
  nodes : s.Sound fun _ t => t.value.Records (·.Accepted (.ofText source))
  shells : Shells (fun name shell => (shell.node name).Records (·.Accepted (.ofText source))) s.frame

namespace Checked

theorem initial : Checked source [] {} where
  follows := .initial
  ordered := ordered_initial
  nodes := sound_initial
  shells := shells_initial fun _ => .unlocated _

theorem text (checked : Checked source xs s) (whole : source = taken xs ++ t) {offset : Nat}
    (reached : (taken xs).length ≤ offset) :
    ∀ o ∈ s.openText, (Extent.ofMark o.start offset).Accepted (.ofText source) := by
  intro o openText
  -- The text began with a character that was taken, so before every offset that is reached.
  obtain ⟨front, c, rest, split_, start⟩ := checked.follows.text o openText
  rw [split_, List.append_assoc, List.cons_append] at whole
  rw [start]
  refine (startsIn_ofMark (rest ++ t) whole offset none).accepted (Int.ofNat_le.2 ?_)
  rw [Mark.offset_after_origin]
  rw [split_, List.length_append] at reached
  omega

theorem textFact (checked : Checked source xs s) (whole : source = taken xs ++ t) {offset : Nat}
    (reached : (taken xs).length ≤ offset) :
    s.TextFact (fun _ t => t.value.Records (·.Accepted (.ofText source))) offset :=
  fun o openText _ _ => .plain (checked.text whole reached o openText) rfl

theorem safeAt (checked : Checked source xs s) (whole : source = taken xs ++ t) {offset : Nat}
    (reached : (taken xs).length ≤ offset) : s.SafeAt (.ofText source) offset where
  text := checked.text whole reached
  rooted := Coherent.rooted ⟨checked.follows.placed.sound, checked.ordered⟩
  settled _ settles := ((Coherent.endText checked.follows.placed checked.ordered offset).settles settles).rooted

theorem add (checked : Checked source xs s) (behind : x.Behind xs) (here : x.InSource source)
    (whole : source = taken (xs ++ [x]) ++ t) : Checked source (xs ++ [x]) (s.add x) := by
  have next : taken (xs ++ [x]) = taken xs ++ x.raw := by simp [taken]
  rw [next] at whole
  refine ⟨?_, ordered_stepwise.add x checked.ordered, ?_, checked.shells.add (shellFact_records here.accepted)⟩
  · rw [next]
    exact checked.follows.add whole behind.start here
  · apply checked.nodes.add_node checked.follows.placed (nodeFact_records here.accepted)
    rw [List.append_assoc] at whole
    exact checked.textFact whole (Nat.le_of_eq behind.offset.symm)

theorem run (chained : Chained .origin source xs) : Checked source xs (xs.foldl Construction.add {}) := by
  apply run_induction (motive := Checked source) .initial
  intro front x back whole checked
  rw [List.foldl_append]
  obtain ⟨behind, here, rest, covers⟩ := chained.reaches whole
  exact checked.add behind here covers

end Checked

end Construction

/-- Lexemes that follow one another in a source are read safely. -/
theorem Chained.safeStep (chained : Chained .origin source xs) {front back : List Lexeme}
    (split_ : xs = front ++ x :: back) : SafeStep source front x := by
  obtain ⟨behind, here, later, covers⟩ := chained.reaches split_
  have part : front <+: xs := ⟨x :: back, split_.symm⟩
  obtain ⟨rest, whole⟩ := chained.take part
  refine ⟨behind.start, ?_, ?_, here.accepted, ?_⟩
  · rw [behind.offset, behind.stop_offset]
    exact behind.length_lt
  · rw [behind.stop_offset, covers, List.length_append]
    exact Nat.le_add_right _ _
  · exact (Construction.Checked.run (chained.of_prefix part)).safeAt whole (Nat.le_of_eq behind.offset.symm)

/-- A source that opens no marked section and has no decimal number with too many digits is read up to a
tree, and nothing fails on the way. -/
theorem parseHtml_safe (acceptable : Acceptable source) :
    ∃ xs tree, lexemes source = .ok xs ∧ parseHtml source = .ok tree ∧ SafeReading source xs tree := by
  obtain ⟨xs, cut⟩ := acceptable.lexemes
  have chained := lexemes_chained cut
  have checked := Construction.Checked.run chained
  obtain ⟨rest, whole⟩ := chained.take List.prefix_rfl
  have bound := chained.length_le
  have nodes := checked.nodes.endText_node (checked.textFact whole bound)
  have shells := checked.shells.endText source.length
  refine ⟨xs, documentOf xs source.length, cut, ?_, ?_⟩
  · rw [parseHtml, cut]
    rfl
  · refine ⟨fun front x back => chained.safeStep, checked.safeAt whole bound, fun t member => ?_⟩
    have all := nodes.toTree (fun _ => .unlocated _) (fun _ => shells.html) (fun _ => shells.head)
      fun _ => shells.body
    obtain ⟨_, records⟩ := all.at_subtree member
    exact records

theorem parseHtml_safe_malformed :
    ∃ xs tree, lexemes "</p>a&#7;</html><li b='c>&#38;\n<script>d</".toList = .ok xs ∧
      parseHtml "</p>a&#7;</html><li b='c>&#38;\n<script>d</".toList = .ok tree ∧
      SafeReading "</p>a&#7;</html><li b='c>&#38;\n<script>d</".toList xs tree :=
  parseHtml_safe (.of_length (by decide +kernel) (by decide))

end LocatedHtml
