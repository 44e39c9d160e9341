import PullStream.Config.Lines
/-!
# Printing and reading a configuration

A configuration of sections with pairs, printed with a line for each header and each pair, gives back its pairs when it
has been loaded, whatever is looked up in between (`lookup_of_printed`). The values may have a `=` in them, since a line
is divided at the first one.
-/

namespace PullStream

open Sections

/-! ### Lines -/

/-- The string has no brackets, CR, LF and NUL. -/
def clean (s : Str) : Bool := s.all fun b => b ∉ [leftBracket, rightBracket, cr, lf, 0]

def pairLine (p : Str × Str) : Str := p.1 ++ equalsSign :: p.2

/-- A pair that may be printed as a line. -/
structure PairOk (p : Str × Str) : Prop where
  key : clean p.1 = true
  noEquals : equalsSign ∉ p.1
  value : clean p.2 = true
  length : (pairLine p).length ≤ 254

/-- A section that may be printed. -/
structure SectionOk (c : Str × List (Str × Str)) : Prop where
  nonempty : c.1 ≠ []
  name : clean c.1 = true
  noEquals : equalsSign ∉ c.1
  length : (headerLine c.1).length ≤ 254
  pairs : ∀ p ∈ c.2, PairOk p

/-- A section as it is printed. -/
def blockOf (c : Str × List (Str × Str)) : Block := (c.1, c.2.map pairLine)

section

variable {s : Str} {p : Str × Str} {c : Str × List (Str × Str)}

theorem clean_iff : clean s = true ↔ ∀ b ∈ s, b ≠ leftBracket ∧ b ≠ rightBracket ∧ b ≠ cr ∧ b ≠ lf ∧ b ≠ 0 := by
  simp [clean]

theorem cStr_of_clean (h : clean s = true) : cStr s = s := by
  apply List.takeWhile_eq_self_iff.mpr
  intro b hb
  exact decide_eq_true (clean_iff.mp h b hb).2.2.2.2

theorem not_mem_of_clean (h : clean s = true) : leftBracket ∉ s ∧ rightBracket ∉ s :=
  ⟨fun hb => (clean_iff.mp h _ hb).1 rfl, fun hb => (clean_iff.mp h _ hb).2.1 rfl⟩

theorem plain_of_clean (h : clean s = true) : ∀ b ∈ s, b ≠ 0 ∧ b ≠ lf ∧ b ≠ cr := by
  intro b hb
  obtain ⟨-, -, hcr, hlf, hnul⟩ := clean_iff.mp h b hb
  exact ⟨hnul, hlf, hcr⟩

theorem not_bracketed_pairLine (h : PairOk p) : ¬ Bracketed (pairLine p) := by
  rintro ⟨hleft, -⟩
  rcases List.mem_append.mp hleft with hleft | hleft
  · exact (not_mem_of_clean h.key).1 hleft
  · rcases List.mem_cons.mp hleft with hleft | hleft
    · exact absurd hleft (by decide)
    · exact (not_mem_of_clean h.value).1 hleft

theorem blockOk_blockOf (h : SectionOk c) : BlockOk (blockOf c) := by
  refine ⟨(not_mem_of_clean h.name).1, (not_mem_of_clean h.name).2, ⟨?_, h.length⟩, ?_⟩
  · rw [headerLine, List.forall_mem_cons, List.forall_mem_append, List.forall_mem_singleton]
    exact ⟨by decide, plain_of_clean h.name, by decide⟩
  · intro t ht
    obtain ⟨p, hp, rfl⟩ := List.mem_map.mp ht
    refine ⟨⟨?_, (h.pairs p hp).length⟩, not_bracketed_pairLine (h.pairs p hp)⟩
    rw [pairLine, List.forall_mem_append, List.forall_mem_cons]
    exact ⟨plain_of_clean (h.pairs p hp).key, by decide, plain_of_clean (h.pairs p hp).value⟩

theorem valuesOf_pairLines {ps : List (Str × Str)} (hps : ∀ p ∈ ps, PairOk p) :
    valuesOf (ps.map pairLine) = lastOf ps := by
  have hpairs : (ps.map pairLine).filterMap pairOf = ps := by
    rw [List.filterMap_map]
    apply (List.filterMap_congr _).trans List.filterMap_some
    intro p hp
    have hparse := parse_pair (hps p hp).noEquals (not_bracketed_pairLine (hps p hp))
    rw [Function.comp_apply, pairOf, pairLine, hparse]
  rw [valuesOf, hpairs]

end

/-! ### Sections with distinct names -/

section

variable {doc : List (Str × List (Str × Str))} {ls : List (Str × Eol)} {r : IniReader}

theorem docValue_doc (hdoc : ∀ c ∈ doc, SectionOk c) (s k : Str) :
    docValue [] (doc.map blockOf) s k = ((lastOf doc s).bind fun ps => lastOf ps k).getD [] := by
  have hlast : lastOf (doc.map blockOf) s = (lastOf doc s).map fun ps => ps.map pairLine := lastOf_map
  rw [docValue, lastOf_cons, hlast]
  cases hs : lastOf doc s with
  | none => by_cases hnil : ([] : Str) = s <;> simp [hnil, valuesOf]
  | some ps =>
    have hps := (hdoc (s, ps) (mem_of_lastOf hs)).pairs
    rw [Option.map_some, Option.some_or, Option.bind_some, Option.bind_some, valuesOf_pairLines hps]

/-- **A configuration that has been printed and loaded gives back its pairs, and the empty string for any other key,
whatever has been looked up before.** -/
theorem lookup_of_printed (hdoc : ∀ c ∈ doc, SectionOk c) (hnames : (doc.map Prod.fst).Nodup)
    (hkeys : ∀ c ∈ doc, (c.2.map Prod.fst).Nodup) (hls : ls.map Prod.fst = docLines [] (doc.map blockOf))
    (looks : List IniLookup) :
    let loaded := r.load (some (fileText ls))
    let looked := looks.foldl IniLookup.after loaded.2
    loaded.1 = some .success ∧ (∀ c ∈ doc, ∀ p ∈ c.2, (looked.getStr c.1 p.1).1 = p.2) ∧
      ∀ s k, (∀ c ∈ doc, c.1 = cStr s → ∀ p ∈ c.2, p.1 ≠ cStr k) → (looked.getStr s k).1 = [] := by
  have hbs : ∀ b ∈ doc.map blockOf, BlockOk b := List.forall_mem_map.mpr fun c hc => blockOk_blockOf (hdoc c hc)
  have hvalue (s k : Str) : ((looks.foldl IniLookup.after (r.load (some (fileText ls))).2).getStr s k).1 =
      cStr (((lastOf doc (cStr s)).bind fun ps => lastOf ps (cStr k)).getD []) := by
    rw [IniReader.getStr_fst, IniReader.value_lookups, value_printed (List.forall_mem_nil _) hbs hls, docValue_doc hdoc]
  refine ⟨congrArg Prod.fst (load_printed (List.forall_mem_nil _) hbs hls), fun c hc p hp => ?_, fun s k habsent => ?_⟩
  · have hpair := (hdoc c hc).pairs p hp
    rw [hvalue, cStr_of_clean (hdoc c hc).name, cStr_of_clean hpair.key, lastOf_of_mem hnames hc, Option.bind_some,
      lastOf_of_mem (hkeys c hc) hp]
    exact cStr_of_clean hpair.value
  · rw [hvalue]
    cases hs : lastOf doc (cStr s) with
    | none => rfl
    | some ps =>
      rw [Option.bind_some, lastOf_eq_none.mpr (habsent _ (mem_of_lastOf hs) rfl)]
      rfl

/-- A configuration with a `=` in a value. -/
def sample : List (Str × List (Str × Str)) :=
  [(lit "system", [(lit "net_type", lit "bond0"), (lit "worker", lit "32")]),
    (lit "mongodb", [(lit "address", lit "mongodb://10.0.0.1:27017/?w=1")])]

def sampleLines : List (Str × Eol) :=
  [(lit "[system]", .lf), (lit "net_type=bond0", .crlf), (lit "worker=32", .lf), (lit "[mongodb]", .crlf),
    (lit "address=mongodb://10.0.0.1:27017/?w=1", .lf)]

theorem sectionOk_sample : ∀ c ∈ sample, SectionOk c := by
  rw [sample, List.forall_mem_cons, List.forall_mem_singleton]
  refine ⟨⟨by decide, by decide, by decide, by decide, ?_⟩, ⟨by decide, by decide, by decide, by decide, ?_⟩⟩
  · rw [List.forall_mem_cons, List.forall_mem_singleton]
    exact ⟨⟨by decide, by decide, by decide, by decide⟩, ⟨by decide, by decide, by decide, by decide⟩⟩
  · rw [List.forall_mem_singleton]
    exact ⟨by decide, by decide, by decide, by decide⟩

theorem lookup_of_sample :
    (([IniLookup.getInt (lit "system") (lit "worker"), .getStr (lit "redis") (lit "address")].foldl IniLookup.after
      (IniReader.new.load (some (fileText sampleLines))).2).getStr (lit "mongodb") (lit "address")).1 =
        lit "mongodb://10.0.0.1:27017/?w=1" :=
  (lookup_of_printed sectionOk_sample (by decide) (by decide) (by decide) _).2.1 _ (.tail _ (.head _)) _ (.head _)

end

end PullStream
