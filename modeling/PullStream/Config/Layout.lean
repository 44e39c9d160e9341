import PullStream.Config.Launched
/-!
# The layout of a configuration does not matter

A configuration may be laid out in many ways: with the sections in any order, and the pairs of each of them, with
comments and empty lines anywhere, and with any line ends. A comment is a line without `=` and without both brackets,
whatever it begins with: the reader knows no sign for one, and a line `#address=m` is a pair with the key `#address`.
When no section and in no section a key comes twice, what the programs look up, and so what they do when they start,
depends only on the pairs that there are in each section (`layout_irrelevant`). The pairs before the first header are
those of a section without a name.
-/

namespace PullStream

open Sections

/-- A text with sections. The lines that are no headers are pairs if they have a `=`, and else lines that mean
nothing. -/
structure Layout where
  pre : List Str
  blocks : List Block
  lines : List (Str × Eol)
  preOk : ∀ t ∈ pre, Fits t ∧ ¬ Bracketed t
  blocksOk : ∀ b ∈ blocks, BlockOk b
  linesEq : lines.map Prod.fst = docLines pre blocks

namespace Layout

variable (y : Layout)

def text : Str := fileText y.lines

/-- The pairs of each section. -/
def sections : List (Str × List (Str × Str)) := (([], y.pre) :: y.blocks).map fun b => (b.1, b.2.filterMap pairOf)

/-- What there is to be read in it. -/
def entries : List (Str × Str × Str) := Sections.entries y.sections

theorem docValue_eq (s k : Str) :
    docValue y.pre y.blocks s k = ((lastOf y.sections s).bind fun ps => lastOf ps k).getD [] := by
  rw [sections, lastOf_map, docValue]
  cases lastOf (([], y.pre) :: y.blocks) s <;> rfl

theorem load_text : ∃ r, IniReader.new.load (some y.text) = (some .success, r) ∧
    ∀ s k, r.text s k = cStr (((lastOf y.sections (cStr s)).bind fun ps => lastOf ps (cStr k)).getD []) := by
  refine ⟨_, load_printed y.preOk y.blocksOk y.linesEq, fun s k => ?_⟩
  have hvalue := @value_printed _ _ _ IniReader.new y.preOk y.blocksOk y.linesEq (cStr s) (cStr k)
  rw [docValue_eq, load_printed y.preOk y.blocksOk y.linesEq] at hvalue
  rw [IniReader.text, IniReader.getStr_fst, hvalue]

end Layout

/-- **The layout does not matter**: of two layouts with the same pairs in the same sections, every key has the same
value in both, and either program starts with one as with the other. -/
theorem layout_irrelevant {y z : Layout} (hy : Distinct y.sections) (hz : Distinct z.sections)
    (h : ∀ e, e ∈ y.entries ↔ e ∈ z.entries) :
    (∀ s k, ((IniReader.new.load (some y.text)).2.getStr s k).1 = ((IniReader.new.load (some z.text)).2.getStr s k).1) ∧
      (∀ client paths, Pull.startUp client paths (some y.text) = Pull.startUp client paths (some z.text)) ∧
      ∀ client paths rounds, Pulld.startUp client paths (some y.text) rounds =
        Pulld.startUp client paths (some z.text) rounds := by
  obtain ⟨r, hr, htext⟩ := y.load_text
  obtain ⟨r', hr', htext'⟩ := z.load_text
  have hsame : r.text = r'.text := by
    funext s k
    rw [htext, htext', lookup_congr hy hz h]
  refine ⟨fun s k => ?_, fun client paths => ?_, fun client paths rounds => ?_⟩
  · rw [hr, hr']
    exact congrFun (congrFun hsame s) k
  · rw [Pull.startUp_eq hr, Pull.startUp_eq hr', hsame]
  · rw [Pulld.startUp_eq hr, Pulld.startUp_eq hr', hsame]

theorem fits_iff {t : Str} : Fits t ↔ (0 ∉ t ∧ lf ∉ t ∧ cr ∉ t) ∧ t.length ≤ 254 := by
  constructor
  · intro h
    exact ⟨⟨fun hb => (h.plain 0 hb).1 rfl, h.lf_notMem, h.cr_notMem⟩, h.length⟩
  · rintro ⟨⟨hzero, hlf, hcr⟩, hlen⟩
    refine ⟨fun b hb => ?_, hlen⟩
    exact ⟨ne_of_mem_of_not_mem hb hzero, ne_of_mem_of_not_mem hb hlf, ne_of_mem_of_not_mem hb hcr⟩

instance (t : Str) : Decidable (Fits t) :=
  decidable_of_iff ((0 ∉ t ∧ lf ∉ t ∧ cr ∉ t) ∧ t.length ≤ 254) fits_iff.symm

instance (b : Block) : Decidable (BlockOk b) :=
  decidable_of_iff
    (leftBracket ∉ b.1 ∧ rightBracket ∉ b.1 ∧ Fits (headerLine b.1) ∧ ∀ t ∈ b.2, Fits t ∧ ¬ Bracketed t)
    ⟨fun h => ⟨h.1, h.2.1, h.2.2.1, h.2.2.2⟩, fun h => ⟨h.left, h.right, h.fits, h.lines⟩⟩

/-- A configuration with comments. -/
def commented : Layout where
  pre := [lit "# pull", lit ""]
  blocks := [(lit "system", [lit "# how many", lit "worker=4", lit "listen=8080"]), (lit "mongodb", [lit "address=m"])]
  lines := [(lit "# pull", .lf), (lit "", .lf), (lit "[system]", .lf), (lit "# how many", .lf), (lit "worker=4", .lf),
    (lit "listen=8080", .lf), (lit "[mongodb]", .lf), (lit "address=m", .lf)]
  preOk := by decide +kernel
  blocksOk := by decide +kernel
  linesEq := by decide +kernel

/-- The same pairs in another order. -/
def reordered : Layout where
  pre := []
  blocks := [(lit "mongodb", [lit "address=m"]), (lit "system", [lit "listen=8080", lit "", lit "worker=4"])]
  lines := [(lit "[mongodb]", .crlf), (lit "address=m", .crlf), (lit "[system]", .crlf), (lit "listen=8080", .crlf),
    (lit "", .crlf), (lit "worker=4", .crlf)]
  preOk := by decide +kernel
  blocksOk := by decide +kernel
  linesEq := by decide +kernel

theorem layout_irrelevant_reordered :
    Pull.startUp namesHost (Paths.of (lit "/opt/pull/sbin") (lit "../conf")) (some commented.text) =
      Pull.startUp namesHost (Paths.of (lit "/opt/pull/sbin") (lit "../conf")) (some reordered.text) :=
  (@layout_irrelevant commented reordered (by decide) (by decide)
    (fun _ => (by decide : commented.entries.Perm reordered.entries).mem_iff)).2.1 _ _

end PullStream
