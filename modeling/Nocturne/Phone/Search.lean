import Nocturne.Catalog.Import
import Nocturne.Lib.StableSort
import Nocturne.Phone.AccentFold

/-!
# The ranking of search results

The query is folded as the titles are, but goes through the builder of the full-text query then,
which takes out the operators and the keywords of FTS. What is left of it is compared with the
folded titles and artists.
-/

namespace Nocturne

open Lib

namespace Search

/-! ### The query -/

/-- `FTS_FORBIDDEN_CHARS`, `FtsQueryBuilder.kt:5`. -/
def isForbidden (c : Char) : Bool := ['"', '*', '-', '+', ':', '(', ')'].contains c

/-- `FTS_KEYWORDS`, `FtsQueryBuilder.kt:6`. -/
def keywords : List Str :=
  [['N', 'E', 'A', 'R'], ['A', 'N', 'D'], ['O', 'R'], ['N', 'O', 'T']]

/-- The word stands at the beginning, in upper or lower case. -/
def startsWithIgnoringCase : Str → Str → Bool
  | [], _ => true
  | _ :: _, [] => false
  | k :: word, c :: s => k == c.toUpper && startsWithIgnoringCase word s

/-- The length of the keyword that stands between two word boundaries here, if there is one. -/
def keywordAt (x : RegexClasses) (before s : Str) : Option Nat :=
  (keywords.find? fun word ↦
    x.isBoundary before s && startsWithIgnoringCase word s &&
      x.isBoundary ((s.take word.length).reverse ++ before) (s.drop word.length)).map List.length

/-- `replace(FTS_KEYWORDS, " ")`, from one match to the next; `skip` characters belong to the last
match. -/
def replaceKeywords (x : RegexClasses) : Str → Nat → Str → Str
  | _, _, [] => []
  | before, skip + 1, c :: s => replaceKeywords x (c :: before) skip s
  | before, 0, c :: s =>
    match keywordAt x before (c :: s) with
    | some length => ' ' :: replaceKeywords x (c :: before) (length - 1) s
    | none => c :: replaceKeywords x (c :: before) 0 s

/-- `normalizeSearchInput`, `FtsQueryBuilder.kt:30–39`. -/
def normalizeSearchInput (u : Unicode) (x : RegexClasses) (rawInput : Text) : Option Str :=
  let folded := accentFold u x rawInput
  if Str.isBlank folded then none
  else
    let stripped := folded.map fun c ↦ if isForbidden c then ' ' else c
    let cleaned := Str.trim (Str.collapse x.isSpace (replaceKeywords x [] 0 stripped))
    if cleaned.isEmpty then none else some cleaned

/-! ### The ranking -/

variable (u : Unicode) (x : RegexClasses)

/-- `tier`, `SearchRanking.kt:23–33`. -/
def tier (q : Str) (t : TrackEntity) : Nat :=
  let title := accentFold u x t.title
  let artists := (t.artist ++ t.albumArtist).map (accentFold u x)
  let album := accentFold u x t.album
  if title = q ∨ artists.any (fun artist ↦ artist = q) then 0
  else if q.isPrefixOf title ∨ artists.any (fun artist ↦ q.isPrefixOf artist) then 1
  else if q.isPrefixOf album then 2
  else 3

/-- A comparator that compares keys of the tracks of pairs. -/
def byTrack {K : Type} (cmp : K → K → Ordering) (key : TrackEntity → K) (a b : TrackEntity × Nat) :
    Ordering :=
  cmp (key a.1) (key b.1)

/-- The comparator, `SearchRanking.kt:37–43`. -/
def comparator : TrackEntity × Nat → TrackEntity × Nat → Ordering :=
  compareLex (compareOn Prod.snd)
    (compareLex (byTrack compare fun t ↦ !t.isResident)
      (compareLex
        (byTrack Str.compareTo fun t ↦
          accentFold u x (t.albumArtist.head?.getD (t.artist.head?.getD [])))
        (compareLex (byTrack Str.compareTo fun t ↦ accentFold u x t.album)
          (compareLex (byTrack compare fun t ↦ t.discNumber.getD 0)
            (byTrack compare fun t ↦ t.trackNumber.getD 0)))))

/-- `rankSearchResults`, `SearchRanking.kt:21–45`. -/
def rankSearchResults (rawInput : Text) (rows : List TrackEntity) : List TrackEntity :=
  match normalizeSearchInput u x rawInput with
  | none => rows
  | some q =>
    (sortedWith (comparator u x) (rows.map fun t ↦ (t, tier u x q t))).map Prod.fst

/-! ### Exact matches -/

/-- The title or an artist is what was typed, folded alike. -/
def IsExactMatch (rawInput : Text) (t : TrackEntity) : Prop :=
  accentFold u x t.title = accentFold u x rawInput ∨
    ∃ artist ∈ t.artist ++ t.albumArtist, accentFold u x artist = accentFold u x rawInput

/-- The result is in the best tier, and that tier comes first. -/
def RanksFirst (rawInput : Text) (rows : List TrackEntity) (t : TrackEntity) : Prop :=
  ∃ q, normalizeSearchInput u x rawInput = some q ∧
    ∃ best others, rankSearchResults u x rawInput rows = best ++ others ∧ t ∈ best ∧
      (∀ t' ∈ best, tier u x q t' = 0) ∧ ∀ t' ∈ others, tier u x q t' ≠ 0

/-- A keyword stands in the string, between word boundaries. -/
def HasKeyword (s : Str) : Prop :=
  ∃ before behind, s = before ++ behind ∧ keywordAt x before.reverse behind ≠ none

/-- A query that is not blank and has nothing of the syntax of FTS. -/
def IsPlain (folded : Str) : Prop :=
  ¬ Str.isBlank folded ∧ (∀ c ∈ folded, isForbidden c = false) ∧ ¬ HasKeyword x folded

section Query

variable {u x} {before s : Str} {c : Char} {length skip : Nat} {rawInput : Text}

/-- As `HasKeyword`, behind some text. -/
def HasKeywordFrom (x : RegexClasses) (before s : Str) : Prop :=
  ∃ pre behind, s = pre ++ behind ∧ keywordAt x (pre.reverse ++ before) behind ≠ none

theorem hasKeyword_iff : HasKeyword x s ↔ HasKeywordFrom x [] s := by
  simp [HasKeyword, HasKeywordFrom]

theorem length_le_of_starts {word : Str} (h : startsWithIgnoringCase word s = true) :
    word.length ≤ s.length := by
  induction word generalizing s with
  | nil => exact Nat.zero_le _
  | cons k word ih =>
    cases s with
    | nil => cases h
    | cons c s =>
      rw [startsWithIgnoringCase, Bool.and_eq_true] at h
      exact Nat.succ_le_succ (ih h.2)

/-- A keyword has at least two characters. -/
theorem bounds_of_keywordAt (h : keywordAt x before s = some length) :
    2 ≤ length ∧ length ≤ s.length := by
  rw [keywordAt, Option.map_eq_some_iff] at h
  obtain ⟨word, hfind, rfl⟩ := h
  have hmem := List.mem_of_find?_eq_some hfind
  have hword := List.find?_some hfind
  simp only [Bool.and_eq_true] at hword
  refine ⟨?_, length_le_of_starts hword.1.2⟩
  have hlong : ∀ word ∈ keywords, 2 ≤ word.length := by decide
  exact hlong word hmem

theorem keywordAt_nil : keywordAt x before [] = none := by
  cases h : keywordAt x before [] with
  | none => rfl
  | some length =>
    have hbounds := bounds_of_keywordAt h
    rw [List.length_nil] at hbounds
    omega

theorem hasKeywordFrom_nil : ¬ HasKeywordFrom x before [] := by
  rintro ⟨pre, behind, hs, hkey⟩
  obtain ⟨rfl, rfl⟩ := List.append_eq_nil_iff.mp hs.symm
  exact hkey keywordAt_nil

theorem hasKeywordFrom_cons : HasKeywordFrom x before (c :: s) ↔
    keywordAt x before (c :: s) ≠ none ∨ HasKeywordFrom x (c :: before) s := by
  constructor
  · rintro ⟨pre, behind, hs, hkey⟩
    cases pre with
    | nil =>
      rw [List.nil_append] at hs
      subst hs
      exact .inl hkey
    | cons d pre =>
      injection hs with hd hs
      subst hd
      exact .inr ⟨pre, behind, hs, by simpa using hkey⟩
  · rintro (hkey | ⟨pre, behind, rfl, hkey⟩)
    · exact ⟨[], c :: s, rfl, hkey⟩
    · exact ⟨c :: pre, behind, rfl, by simpa using hkey⟩

theorem length_replaceKeywords_le (before : Str) (hskip : skip ≤ s.length) :
    (replaceKeywords x before skip s).length ≤ s.length - skip := by
  induction s generalizing before skip with
  | nil => simp [replaceKeywords]
  | cons c s ih =>
    cases skip with
    | succ skip =>
      have := ih (c :: before) (Nat.le_of_succ_le_succ hskip)
      simp only [replaceKeywords, List.length_cons]
      omega
    | zero =>
      rw [replaceKeywords]
      cases hkey : keywordAt x before (c :: s) with
      | none =>
        have := ih (c :: before) (Nat.zero_le _)
        simp only [List.length_cons]
        omega
      | some length =>
        have hbounds := bounds_of_keywordAt hkey
        rw [List.length_cons] at hbounds
        have := @ih (length - 1) (c :: before) (by omega)
        simp only [List.length_cons]
        omega

/-- With a keyword replaced, a string is shorter. -/
theorem length_replaceKeywords_lt (h : HasKeywordFrom x before s) :
    (replaceKeywords x before 0 s).length < s.length := by
  induction s generalizing before with
  | nil => exact absurd h hasKeywordFrom_nil
  | cons c s ih =>
    rw [replaceKeywords]
    cases hkey : keywordAt x before (c :: s) with
    | none =>
      rcases hasKeywordFrom_cons.mp h with hhere | hlater
      · exact absurd hkey hhere
      · exact Nat.succ_lt_succ (ih hlater)
    | some length =>
      have hbounds := bounds_of_keywordAt hkey
      rw [List.length_cons] at hbounds
      have := @length_replaceKeywords_le x s (length - 1) (c :: before) (by omega)
      simp only [List.length_cons]
      omega

theorem replaceKeywords_eq_self (h : ¬ HasKeywordFrom x before s) :
    replaceKeywords x before 0 s = s := by
  induction s generalizing before with
  | nil => rfl
  | cons c s ih =>
    rw [hasKeywordFrom_cons, not_or, not_not] at h
    rw [replaceKeywords, h.1]
    exact congrArg (c :: ·) (ih h.2)

theorem mem_replaceKeywords (h : c ∈ replaceKeywords x before skip s) : c = ' ' ∨ c ∈ s := by
  induction s generalizing before skip with
  | nil => simp [replaceKeywords] at h
  | cons d s ih =>
    cases skip with
    | succ skip =>
      rw [replaceKeywords] at h
      exact (ih h).imp_right (List.mem_cons_of_mem d)
    | zero =>
      rw [replaceKeywords] at h
      cases hkey : keywordAt x before (d :: s) with
      | none =>
        rw [hkey] at h
        rcases List.mem_cons.mp h with rfl | h
        · exact .inr (List.mem_cons_self ..)
        · exact (ih h).imp_right (List.mem_cons_of_mem d)
      | some length =>
        rw [hkey] at h
        rcases List.mem_cons.mp h with rfl | h
        · exact .inl rfl
        · exact (ih h).imp_right (List.mem_cons_of_mem d)

theorem map_strip (h : ∀ c ∈ s, isForbidden c = false) :
    (s.map fun c ↦ if isForbidden c then ' ' else c) = s := by
  apply (List.map_congr_left fun c hc ↦ ?_).trans (List.map_id s)
  simp [h c hc]

/-- The cleaned query is the folded one exactly where that is plain. -/
theorem normalizeSearchInput_eq_folded :
    normalizeSearchInput u x rawInput = some (accentFold u x rawInput) ↔
      IsPlain x (accentFold u x rawInput) := by
  generalize hf : accentFold u x rawInput = folded
  have htidy : Str.collapse x.isSpace folded = folded := hf ▸ tidy_accentFold.collapse_eq
  have htrim : Str.trim folded = folded := hf ▸ trim_accentFold
  rw [normalizeSearchInput, hf, IsPlain]
  constructor
  · intro h
    split at h
    · cases h
    · next hblank =>
      dsimp only at h
      split at h
      · cases h
      · injection h with h
        have hallowed : ∀ c ∈ folded, isForbidden c = false := by
          intro c hc
          rw [← h] at hc
          rcases Str.mem_collapse ((Str.trim_infix _).subset hc) with rfl | hc
          · decide
          · rcases mem_replaceKeywords hc with rfl | hc
            · decide
            · obtain ⟨d, -, rfl⟩ := List.mem_map.mp hc
              split
              · decide
              · next hd => simpa using hd
        refine ⟨hblank, hallowed, fun hkey ↦ ?_⟩
        have hshort := length_replaceKeywords_lt (hasKeyword_iff.mp hkey)
        rw [map_strip hallowed] at h
        have htrim := Str.trim_infix (Str.collapse x.isSpace (replaceKeywords x [] 0 folded))
        have hle := htrim.length_le
        rw [h] at hle
        have := Str.length_collapse_le x.isSpace (replaceKeywords x [] 0 folded)
        omega
  · rintro ⟨hblank, hallowed, hkey⟩
    have hne : folded.isEmpty = false := by
      rw [← Bool.not_eq_true, List.isEmpty_iff]
      rintro rfl
      exact hblank rfl
    have hkept := replaceKeywords_eq_self fun h ↦ hkey (hasKeyword_iff.mpr h)
    rw [if_neg hblank, map_strip hallowed]
    simp [hkept, htidy, htrim, hne]

end Query

section Ranking

variable {u x} {rawInput : Text} {rows : List TrackEntity} {t : TrackEntity} {q : Str}

instance {K : Type} {cmp : K → K → Ordering} [Std.TransCmp cmp] (key : TrackEntity → K) :
    Std.TransCmp (byTrack cmp key) where
  eq_swap := @fun a b ↦ @Std.OrientedCmp.eq_swap _ cmp _ (key a.1) (key b.1)
  isLE_trans := fun hab hbc ↦ @Std.TransCmp.isLE_trans _ cmp _ _ _ _ hab hbc

instance : Std.TransCmp (comparator u x) := by
  dsimp only [comparator]
  infer_instance

/-- A better tier comes first. -/
theorem tier_le_of_isLE {a b : TrackEntity × Nat} (h : (comparator u x a b).isLE = true) :
    a.2 ≤ b.2 := by
  rw [comparator, compareLex, Ordering.isLE_then_iff_and] at h
  exact Nat.isLE_compare.mp h.1

/-- The best tier has the exact matches of the cleaned query. -/
theorem tier_eq_zero : tier u x q t = 0 ↔ accentFold u x t.title = q ∨
    ∃ artist ∈ t.artist ++ t.albumArtist, accentFold u x artist = q := by
  have hany : (((t.artist ++ t.albumArtist).map (accentFold u x)).any fun artist ↦ artist = q) =
      true ↔ ∃ artist ∈ t.artist ++ t.albumArtist, accentFold u x artist = q := by
    simp only [List.any_map, List.any_eq_true, Function.comp, decide_eq_true_eq]
  rw [tier, ← hany]
  split
  · next h => exact iff_of_true rfl h
  · next h =>
    apply iff_of_false _ h
    split
    · exact Nat.succ_ne_zero _
    · split <;> exact Nat.succ_ne_zero _

/-- A list in the order of the tiers begins with the best one. -/
theorem exists_best {rated : List (TrackEntity × Nat)}
    (h : rated.Pairwise fun a b ↦ a.2 ≤ b.2) :
    ∃ best others, rated = best ++ others ∧ (∀ r ∈ best, r.2 = 0) ∧ ∀ r ∈ others, r.2 ≠ 0 := by
  induction rated with
  | nil => exact ⟨[], [], rfl, by simp, by simp⟩
  | cons r rated ih =>
    obtain ⟨hr, hrest⟩ := List.pairwise_cons.mp h
    by_cases hzero : r.2 = 0
    · obtain ⟨best, others, rfl, hbest, hothers⟩ := ih hrest
      exact ⟨r :: best, others, rfl, List.forall_mem_cons.mpr ⟨hzero, hbest⟩, hothers⟩
    · refine ⟨[], r :: rated, rfl, by simp, List.forall_mem_cons.mpr ⟨hzero, fun s hs ↦ ?_⟩⟩
      have := hr s hs
      omega

/-- Results of the best tier rank first. -/
theorem ranksFirst_iff (hq : normalizeSearchInput u x rawInput = some q) (ht : t ∈ rows) :
    RanksFirst u x rawInput rows t ↔ tier u x q t = 0 := by
  constructor
  · rintro ⟨q', hq', best, others, -, hmem, hbest, -⟩
    rw [hq] at hq'
    injection hq' with hq'
    rw [hq']
    exact hbest t hmem
  · intro hzero
    have hsorted := (@pairwise_sortedWith _ (comparator u x) _
      (rows.map fun t ↦ (t, tier u x q t))).imp tier_le_of_isLE
    obtain ⟨best, others, hsplit, hbest, hothers⟩ := exists_best hsorted
    -- Each pair of the sorted list has the tier of its track.
    have htier : ∀ r ∈ best ++ others, r.2 = tier u x q r.1 := by
      intro r hr
      rw [← hsplit, mem_sortedWith] at hr
      obtain ⟨t', -, rfl⟩ := List.mem_map.mp hr
      rfl
    have hpair : (t, tier u x q t) ∈ best ++ others := by
      rw [← hsplit, mem_sortedWith]
      exact List.mem_map_of_mem ht
    refine ⟨q, hq, best.map Prod.fst, others.map Prod.fst, ?_, ?_, ?_, ?_⟩
    · rw [rankSearchResults, hq]
      simp only [hsplit, List.map_append]
    · rcases List.mem_append.mp hpair with hpair | hpair
      · exact List.mem_map.mpr ⟨_, hpair, rfl⟩
      · exact absurd hzero (hothers _ hpair)
    · rw [List.forall_mem_map]
      exact fun r hr ↦ htier r (List.mem_append_left _ hr) ▸ hbest r hr
    · rw [List.forall_mem_map]
      exact fun r hr ↦ htier r (List.mem_append_right _ hr) ▸ hothers r hr

end Ranking

/-- A track with this title and nothing else. -/
def entitled (title : Text) : TrackEntity :=
  ⟨[], title, [], [], [], [], [], [], none, none, none, none, none, 0, [], 0, [], [], true, []⟩

/-- Exact matches rank first for exactly the queries without anything of the syntax of FTS. -/
theorem exact_first_iff (rawInput : Text) :
    (∀ rows, ∀ t ∈ rows, IsExactMatch u x rawInput t → RanksFirst u x rawInput rows t) ↔
      IsPlain x (accentFold u x rawInput) := by
  rw [← normalizeSearchInput_eq_folded]
  constructor
  · intro h
    have hmem := List.mem_singleton_self (entitled rawInput)
    have hfirst := h [entitled rawInput] (entitled rawInput) hmem (.inl rfl)
    obtain ⟨q, hq, -⟩ := id hfirst
    rw [ranksFirst_iff hq hmem, tier_eq_zero] at hfirst
    rcases hfirst with htitle | ⟨artist, hartist, -⟩
    · rw [hq, ← htitle]
      rfl
    · cases hartist
  · intro hplain rows t ht hexact
    rw [ranksFirst_iff hplain ht, tier_eq_zero]
    exact hexact

/-- The classes of a string in ASCII. -/
def asciiClasses : RegexClasses where
  isSpace := fun c ↦ c == ' ' || (9 ≤ c.toNat && c.toNat ≤ 13)
  isBoundary := fun before behind ↦
    before.head?.any Char.isAlphanum != behind.head?.any Char.isAlphanum

example : normalizeSearchInput asciiUnicode asciiClasses (ascii "AC-DC  and (live)") =
    some "ac dc live".toList := by decide +kernel

/-- The title is typed as it is, but begins with a keyword. -/
theorem not_like_us : IsExactMatch asciiUnicode asciiClasses (ascii "Not Like Us")
      (entitled (ascii "Not Like Us")) ∧
    ¬ RanksFirst asciiUnicode asciiClasses (ascii "Not Like Us")
      [entitled (ascii "Like Us Too"), entitled (ascii "Not Like Us")]
      (entitled (ascii "Not Like Us")) := by
  refine ⟨.inl rfl, ?_⟩
  rintro ⟨q, hq, best, others, -, hmem, hbest, -⟩
  have hcleaned : normalizeSearchInput asciiUnicode asciiClasses (ascii "Not Like Us") =
      some "like us".toList := by decide +kernel
  rw [hcleaned] at hq
  injection hq with hq
  subst hq
  have htier : tier asciiUnicode asciiClasses "like us".toList
      (entitled (ascii "Not Like Us")) = 3 := by
    decide +kernel
  rw [hbest _ hmem] at htier
  cases htier

end Search

end Nocturne
