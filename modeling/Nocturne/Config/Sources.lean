import Nocturne.Config.Load
import Nocturne.Resolve.Buckets

/-!
# Sources of configured buckets

The resolver compares the source of each bucket that it runs, and relies on its being there. A bucket
of the defaults has one; a bucket that a section adds has one only from a `source` line.
-/

namespace Nocturne

open Lib

variable {D : Type} {fl : Doubles D}

/-! ### The resolver's side -/

/-- The configuration as the resolver reads it, with these buckets. -/
def Options.resolver (fl : Doubles D) (o : Options D) (buckets : List BucketConfig)
    (h : (buckets.map BucketConfig.name).Nodup) : ResolverConfig where
  capBytes := o.capBytes
  capEffectiveRatio := fl.ratio o.capEffectiveRatio
  hysteresisRatio := fl.ratio o.hysteresisRatio
  coldStartPlayThreshold := o.coldStartPlayThreshold
  randomSeed := o.randomSeed
  buckets := buckets
  distinct := h

/-- The buckets that the loop of `resolver_run` gets to, `resolver.c:411–424`; `none` where it compares
a source that is NULL. -/
def reachedBuckets (cold : Bool) : List (Text × BucketOptions D) → Option (List BucketConfig)
  | [] => some []
  | (name, b) :: bs =>
    if b.count ≤ 0 then reachedBuckets cold bs
    else if cold &&
        !([ascii "recent_adds", ascii "exploration", ascii "manual_pins"].contains name) then
      reachedBuckets cold bs
    else
      match b.source with
      | none => none
      | some source => (reachedBuckets cold bs).map (⟨name, b.count, source, b.windowDays⟩ :: ·)

theorem reachedBuckets_sublist {cold : Bool} {bs : List (Text × BucketOptions D)}
    {bcs : List BucketConfig} (h : reachedBuckets cold bs = some bcs) :
    (bcs.map BucketConfig.name).Sublist (bs.map Prod.fst) := by
  induction bs generalizing bcs with
  | nil =>
    cases h
    exact List.Sublist.slnil
  | cons e bs ih =>
    obtain ⟨name, b⟩ := e
    unfold reachedBuckets at h
    split at h
    · exact (ih h).cons name
    · split at h
      · exact (ih h).cons name
      · split at h
        · cases h
        · obtain ⟨bcs', hbcs', rfl⟩ := Option.map_eq_some_iff.mp h
          exact (ih hbcs').cons_cons name

/-- `resolver_run` on a loaded configuration; `none` where it dereferences NULL. -/
def NocturneConfig.resolve (fl : Doubles D) (c : NocturneConfig D) (env : ResolverEnv) (db : Db) :
    Option Resolution :=
  let cold := db.isCold (c.resolver fl [] List.nodup_nil)
  match h : reachedBuckets cold c.buckets with
  | none => none
  | some bcs => some (Nocturne.resolve env
      (c.resolver fl bcs (c.distinct.sublist (reachedBuckets_sublist h))) db)

/-- Every bucket with a positive count has a source. -/
def NocturneConfig.HasSources (c : NocturneConfig D) : Prop :=
  ∀ b ∈ c.buckets, 0 < b.2.count → b.2.source.isSome

/-- With all sources there, every run of the resolver gives a manifest. -/
theorem NocturneConfig.HasSources.resolve_isSome {c : NocturneConfig D} (h : c.HasSources)
    (env : ResolverEnv) (db : Db) : (c.resolve fl env db).isSome := by
  have hreached : ∀ cold, (reachedBuckets cold c.buckets).isSome := by
    intro cold
    unfold NocturneConfig.HasSources at h
    generalize c.buckets = bs at h
    induction bs with
    | nil => rfl
    | cons e bs ih =>
      obtain ⟨name, b⟩ := e
      have htail := ih fun b hb ↦ h b (List.mem_cons_of_mem _ hb)
      unfold reachedBuckets
      split
      · exact htail
      · next hcount =>
        split
        · exact htail
        · have hsource := h (name, b) List.mem_cons_self (by dsimp only; omega)
          split
          · next hnone => exact absurd hsource (by simp [hnone])
          · simpa using htail
  unfold NocturneConfig.resolve
  dsimp only
  split
  · next hnone =>
    have hsome := hreached (db.isCold (c.resolver fl [] List.nodup_nil))
    rw [hnone] at hsome
    cases hsome
  · rfl

/-! ### The text's side -/

/-- The `key = value` lines of bucket sections: bucket, key and value. -/
def bucketEntries : (sec : Text) → List Line → List (Text × Text × Text)
  | _, [] => []
  | _, .header sec :: ls => bucketEntries sec ls
  | sec, .entry key value :: ls =>
    if bucketsDot.isPrefixOf sec then (sec.drop 8, key, value) :: bucketEntries sec ls
    else bucketEntries sec ls
  | sec, _ :: ls => bucketEntries sec ls

/-- The number that the last `count` line of a bucket gives it; zero if it has none. -/
def lastCount (name : Text) (entries : List (Text × Text × Text)) : Int :=
  match (entries.filter fun e ↦ decide (e.1 = name ∧ e.2.1 = ascii "count")).getLast? with
  | none => 0
  | some e => (parseLl e.2.2).getD 0

/-- A bucket has a `source` line. -/
def GivesSource (name : Text) (entries : List (Text × Text × Text)) : Prop :=
  ∃ value, (name, ascii "source", value) ∈ entries

/-- What an entry does to its bucket. -/
def entryEdit (fl : Doubles D) (e : Text × Text × Text) : BucketOptions D → BucketOptions D :=
  match bucketEdit fl e.2.1 e.2.2 with
  | .set f => f
  | _ => id

/-- The entries as edits. -/
def entryEdits (fl : Doubles D) (entries : List (Text × Text × Text)) :
    List (Text × (BucketOptions D → BucketOptions D)) :=
  entries.map fun e ↦ (e.1, entryEdit fl e)

section Loading

variable {c c' : NocturneConfig D} {s s' : Loading D} {sec key raw : Text} {line : Nat}
  {warning : Option Text} {l : Line} {ls : List Line} {name : Text} {b : BucketOptions D}
  {entries : List (Text × Text × Text)}

/-- A line that is taken edits the buckets as its entry says, and its entry is valid. -/
theorem loadLine_buckets (h : loadLine fl s line l = .ok s') (ls : List Line) :
    s'.config.buckets =
        touchAll (freshBucket fl) s.config.buckets (entryEdits fl (bucketEntries s.sec [l])) ∧
      (∀ e ∈ bucketEntries s.sec [l], bucketEdit fl e.2.1 e.2.2 ≠ .invalid) ∧
      bucketEntries s.sec (l :: ls) = bucketEntries s.sec [l] ++ bucketEntries s'.sec ls := by
  cases l with
  | blank =>
    cases h
    exact ⟨rfl, nofun, rfl⟩
  | malformedHeader => cases h
  | longHeader => cases h
  | noEquals => cases h
  | header sec =>
    cases h
    exact ⟨rfl, nofun, rfl⟩
  | entry key value =>
    unfold loadLine at h
    dsimp only at h
    split at h
    · cases h
    · split at h
      · next c warning hkv =>
        cases h
        unfold applyKv at hkv
        dsimp only at hkv
        split at hkv
        · cases hkv
        · split at hkv
          · next hsec =>
            have hentry : ∀ ls, bucketEntries s.sec (.entry key value :: ls) =
                (s.sec.drop 8, key, value) :: bucketEntries s.sec ls := by
              intro ls
              rw [bucketEntries, if_pos hsec]
            have hedit : c.buckets = touch (freshBucket fl) (s.sec.drop 8)
                  (entryEdit fl (s.sec.drop 8, key, value)) s.config.buckets ∧
                bucketEdit fl key value ≠ .invalid := by
              unfold entryEdit
              dsimp only
              cases hb : bucketEdit fl key value with
              | set f =>
                rw [hb] at hkv
                cases hkv
                exact ⟨rfl, nofun⟩
              | unknown =>
                rw [hb] at hkv
                cases hkv
                exact ⟨rfl, nofun⟩
              | invalid =>
                rw [hb] at hkv
                cases hkv
            rw [hentry, hentry]
            refine ⟨hedit.1, ?_, rfl⟩
            intro e he
            rw [List.mem_singleton.mp he]
            exact hedit.2
          · next hsec =>
            have hentry : ∀ ls, bucketEntries s.sec (.entry key value :: ls) =
                bucketEntries s.sec ls := by
              intro ls
              rw [bucketEntries, if_neg hsec]
            have hsame : c.buckets = s.config.buckets := by
              split at hkv
              · cases hkv
                rfl
              · cases hkv
                rfl
              · cases hkv
            rw [hentry, hentry]
            exact ⟨hsame, nofun, rfl⟩
      · cases h

/-- A text that is taken edits the buckets as its entries say, one after another. -/
theorem loadLines_buckets (h : loadLines fl s line ls = .ok s') :
    s'.config.buckets =
        touchAll (freshBucket fl) s.config.buckets (entryEdits fl (bucketEntries s.sec ls)) ∧
      ∀ e ∈ bucketEntries s.sec ls, bucketEdit fl e.2.1 e.2.2 ≠ .invalid := by
  induction ls generalizing s line with
  | nil =>
    cases h
    exact ⟨rfl, nofun⟩
  | cons l ls ih =>
    unfold loadLines at h
    split at h
    · next s₁ hline =>
      obtain ⟨hb, hv, hcons⟩ := loadLine_buckets hline ls
      obtain ⟨hb', hv'⟩ := ih h
      rw [hcons]
      refine ⟨?_, ?_⟩
      · rw [hb', hb]
        simp only [touchAll, entryEdits, List.map_append, List.foldl_append]
      · intro e he
        exact (List.mem_append.mp he).elim (hv e) (hv' e)
    · cases h

theorem lastCount_append (e : Text × Text × Text) : lastCount name (entries ++ [e]) =
    if e.1 = name ∧ e.2.1 = ascii "count" then (parseLl e.2.2).getD 0
    else lastCount name entries := by
  unfold lastCount
  by_cases h : e.1 = name ∧ e.2.1 = ascii "count"
  · simp [h]
  · simp [h]

/-- A valid entry sets the count of its bucket where its key is `count`, gives it a source where the
key is `source`, and does neither otherwise. -/
theorem entryEdit_spec {e : Text × Text × Text} (he : bucketEdit fl e.2.1 e.2.2 ≠ .invalid)
    (b : BucketOptions D) :
    (entryEdit fl e b).count =
        (if e.2.1 = ascii "count" then clamp 0 1000000 ((parseLl e.2.2).getD 0) else b.count) ∧
      ((entryEdit fl e b).source.isSome ↔ b.source.isSome ∨ e.2.1 = ascii "source") := by
  have hne : ascii "count" ≠ ascii "source" := by decide
  unfold entryEdit
  unfold bucketEdit at he ⊢
  by_cases h₁ : e.2.1 = ascii "count"
  · rw [if_pos h₁] at he ⊢
    rw [if_pos h₁, h₁]
    cases hp : parseLl e.2.2 with
    | none => exact absurd (by rw [hp]; rfl) he
    | some v => exact ⟨rfl, by simp [Edit.of, hne]⟩
  rw [if_neg h₁] at he ⊢
  rw [if_neg h₁]
  by_cases h₂ : e.2.1 = ascii "weight"
  · have hws : ascii "weight" ≠ ascii "source" := by decide
    rw [if_pos h₂] at he ⊢
    rw [h₂]
    cases hp : parseDbl fl e.2.2 with
    | none => exact absurd (by rw [hp]; rfl) he
    | some v => exact ⟨rfl, by simp [Edit.of, hws]⟩
  rw [if_neg h₂] at he ⊢
  by_cases h₃ : e.2.1 = ascii "window_days"
  · have hws : ascii "window_days" ≠ ascii "source" := by decide
    rw [if_pos h₃] at he ⊢
    rw [h₃]
    cases hp : parseLl e.2.2 with
    | none => exact absurd (by rw [hp]; rfl) he
    | some v => exact ⟨rfl, by simp [Edit.of, hws]⟩
  rw [if_neg h₃] at he ⊢
  by_cases h₄ : e.2.1 = ascii "source"
  · rw [if_pos h₄] at he ⊢
    rw [h₄]
    cases hp : parseString e.2.2 with
    | none => exact absurd (by rw [hp]; rfl) he
    | some v => exact ⟨rfl, by simp [Edit.of]⟩
  rw [if_neg h₄]
  exact ⟨rfl, by simp [h₄]⟩

/-- Edits of one bucket: it has a source if it had one or one of them gives it, and it has the count of
the last of them that sets it. -/
theorem editAll_spec (hv : ∀ e ∈ entries, bucketEdit fl e.2.1 e.2.2 ≠ .invalid)
    (hname : ∀ e ∈ entries, e.1 = name) (b : BucketOptions D) :
    ((editAll (entries.map (entryEdit fl)) b).source.isSome ↔
        b.source.isSome ∨ GivesSource name entries) ∧
      (b.count = 0 → (0 < (editAll (entries.map (entryEdit fl)) b).count ↔
        0 < lastCount name entries)) := by
  induction entries using List.reverseRecOn with
  | nil =>
    refine ⟨by simp [editAll, GivesSource], fun hb ↦ ?_⟩
    show 0 < b.count ↔ 0 < 0
    rw [hb]
  | append_singleton entries e ih =>
    have hlast : e ∈ entries ++ [e] := List.mem_append_right _ (List.mem_singleton_self e)
    obtain ⟨hsource, hcount⟩ := ih (fun e' he' ↦ hv e' (List.mem_append_left _ he'))
      fun e' he' ↦ hname e' (List.mem_append_left _ he')
    have hstep : editAll ((entries ++ [e]).map (entryEdit fl)) b =
        entryEdit fl e (editAll (entries.map (entryEdit fl)) b) := by
      simp [editAll]
    obtain ⟨hc, hs⟩ := entryEdit_spec (hv e hlast) (editAll (entries.map (entryEdit fl)) b)
    rw [hstep, hs, hc, hsource]
    constructor
    · rw [or_assoc]
      refine or_congr_right ?_
      constructor
      · rintro (⟨value, hmem⟩ | hkey)
        · exact ⟨value, List.mem_append_left _ hmem⟩
        · refine ⟨e.2.2, ?_⟩
          rw [← hname e hlast, ← hkey]
          exact hlast
      · rintro ⟨value, hmem⟩
        rcases List.mem_append.mp hmem with hmem | hmem
        · exact Or.inl ⟨value, hmem⟩
        · rw [← List.mem_singleton.mp hmem]
          exact Or.inr rfl
    · intro hb
      rw [lastCount_append]
      by_cases hkey : e.2.1 = ascii "count"
      · rw [if_pos hkey, if_pos ⟨hname e hlast, hkey⟩]
        unfold clamp
        split
        · omega
        · split <;> omega
      · rw [if_neg hkey, if_neg fun h ↦ hkey h.2]
        exact hcount hb

/-- The edits of a bucket are those of its entries. -/
theorem editsOf_entryEdits (name : Text) (entries : List (Text × Text × Text)) :
    editsOf name (entryEdits fl entries) =
      (entries.filter fun e ↦ decide (e.1 = name)).map (entryEdit fl) := by
  simp [editsOf, entryEdits, List.filter_map, Function.comp_def]

theorem lastCount_filter (name : Text) (entries : List (Text × Text × Text)) :
    lastCount name (entries.filter fun e ↦ decide (e.1 = name)) = lastCount name entries := by
  unfold lastCount
  rw [List.filter_filter]
  congr 3
  funext e
  simp +contextual

theorem givesSource_filter (name : Text) (entries : List (Text × Text × Text)) :
    GivesSource name (entries.filter fun e ↦ decide (e.1 = name)) ↔ GivesSource name entries := by
  simp [GivesSource]

/-- A default bucket has a source. -/
theorem source_defaultBuckets {e : Text × BucketOptions D} (he : e ∈ defaultBuckets fl) :
    e.2.source.isSome := by
  simp only [defaultBuckets, List.mem_cons, List.not_mem_nil, or_false] at he
  rcases he with rfl | rfl | rfl | rfl | rfl | rfl | rfl <;> rfl

theorem lookup_defaultBuckets (fl : Doubles D) (name : Text) :
    ((defaultBuckets fl).lookup name).isSome ↔ name ∈ defaultNames := isSome_lookup

/-- A bucket of a loaded configuration has a source if it is a default bucket or a line gives it one;
where it is none, its count is positive if its last `count` line says so. -/
theorem loaded_spec (h : loadLines fl ⟨configDefault fl, [], []⟩ line ls = .ok s')
    (hb : (name, b) ∈ s'.config.buckets) :
    (b.source.isSome ↔ name ∈ defaultNames ∨ GivesSource name (bucketEntries [] ls)) ∧
      (name ∉ defaultNames → (0 < b.count ↔ 0 < lastCount name (bucketEntries [] ls))) := by
  obtain ⟨hbuckets, hv⟩ := loadLines_buckets h
  have hlookup : (touchAll (freshBucket fl) (defaultBuckets fl)
      (entryEdits fl (bucketEntries [] ls))).lookup name = some b :=
    hbuckets ▸ lookup_of_mem s'.config.distinct hb
  rw [lookup_touchAll, editsOf_entryEdits] at hlookup
  have hdef := lookup_defaultBuckets fl name
  split at hlookup
  · next hnil =>
    have hsource := source_defaultBuckets (mem_of_lookup hlookup)
    have hname := hdef.mp (Option.isSome_iff_exists.mpr ⟨b, hlookup⟩)
    exact ⟨iff_of_true hsource (Or.inl hname), fun hn ↦ absurd hname hn⟩
  · have hname : ∀ e ∈ (bucketEntries [] ls).filter fun e ↦ decide (e.1 = name), e.1 = name :=
      fun e he ↦ by simpa using List.of_mem_filter he
    have hspec := editAll_spec (fun e he ↦ hv e (List.mem_of_mem_filter he)) hname
      (((defaultBuckets fl).lookup name).getD (freshBucket fl))
    rw [givesSource_filter, lastCount_filter] at hspec
    obtain ⟨hsource, hcount⟩ := hspec
    obtain rfl := Option.some.inj hlookup
    cases hlook : (defaultBuckets fl).lookup name with
    | none =>
      rw [hlook] at hdef hsource hcount
      refine ⟨hsource.trans (or_congr_left ?_), fun _ ↦ hcount rfl⟩
      exact iff_of_false (by simp [freshBucket]) fun hn ↦ by simpa using hdef.mpr hn
    | some b₀ =>
      rw [hlook] at hdef hsource
      have hname := hdef.mp rfl
      have hb₀ := source_defaultBuckets (mem_of_lookup hlook)
      exact ⟨iff_of_true (hsource.mpr (Or.inl hb₀)) (Or.inl hname), fun hn ↦ absurd hname hn⟩

/-- A bucket whose last `count` line is positive is there. -/
theorem loaded_of_lastCount (h : loadLines fl ⟨configDefault fl, [], []⟩ line ls = .ok s')
    (hcount : 0 < lastCount name (bucketEntries [] ls)) : ∃ b, (name, b) ∈ s'.config.buckets := by
  obtain ⟨hbuckets, -⟩ := loadLines_buckets h
  have hlookup := lookup_touchAll (d := freshBucket fl) (entryEdits fl (bucketEntries [] ls))
    (defaultBuckets fl) name
  rw [if_neg] at hlookup
  · exact ⟨_, hbuckets ▸ mem_of_lookup hlookup⟩
  · rw [editsOf_entryEdits, List.map_eq_nil_iff]
    intro hnil
    rw [← lastCount_filter, hnil] at hcount
    exact Int.lt_irrefl 0 hcount

/-- For every accepted text: all buckets with a positive count have a source, and every run of the
resolver gives a manifest, exactly where each bucket outside the defaults whose last `count` line is
positive has a `source` line as well. -/
theorem sources_iff {text : Text} {warnings : List Text}
    (h : configLoad fl (.text text) = .ok (c, warnings)) :
    (c.HasSources ∧ ∀ env db, (c.resolve fl env db).isSome) ↔
      ∀ name, name ∉ defaultNames → 0 < lastCount name (bucketEntries [] (readLines text)) →
        GivesSource name (bucketEntries [] (readLines text)) := by
  unfold configLoad at h
  dsimp only at h
  split at h
  case h_2 => cases h
  next s hload =>
  cases h
  constructor
  · rintro ⟨hall, -⟩ name hname hcount
    obtain ⟨b, hb⟩ := loaded_of_lastCount hload hcount
    obtain ⟨hsource, hpos⟩ := loaded_spec hload hb
    exact (hsource.mp (hall _ hb ((hpos hname).mpr hcount))).resolve_left hname
  · intro hcond
    have hall : s.config.HasSources := by
      rintro ⟨name, b⟩ hb hcount
      obtain ⟨hsource, hpos⟩ := loaded_spec hload hb
      refine hsource.mpr ?_
      by_cases hname : name ∈ defaultNames
      · exact Or.inl hname
      · exact Or.inr (hcond name hname ((hpos hname).mp hcount))
    exact ⟨hall, hall.resolve_isSome⟩

end Loading

namespace AddedBucket

/-- Rational numbers, of which integers without a sign are read. -/
def doubles : Doubles ℚ where
  literal q := q
  strtod s := ⟨digitsValue 0 (s.takeWhile isDigit), s.dropWhile isDigit, false⟩
  ratio q := q

/-- A bucket is added with its source. -/
def sourced : Text := ascii "[buckets.liked]\nsource = \"loved\"\ncount = 5\n"

/-- A bucket is added and gets a count only. -/
def unsourced : Text :=
  ascii "[resolver]\ncold_start_play_threshold = 0\n[buckets.liked]\ncount = 5\n"

theorem sourced_runs : ∃ c warnings, configLoad doubles (.text sourced) = .ok (c, warnings) ∧
    c.HasSources ∧ ∀ env db, (c.resolve doubles env db).isSome := by
  have hload : (configLoad doubles (.text sourced)).isOk = true := by decide +kernel
  have hentries : bucketEntries [] (readLines sourced) =
      [(ascii "liked", ascii "source", ascii "\"loved\""),
        (ascii "liked", ascii "count", ascii "5")] := by decide +kernel
  cases h : configLoad doubles (.text sourced) with
  | error e =>
    rw [h] at hload
    cases hload
  | ok r =>
    obtain ⟨c, warnings⟩ := r
    refine ⟨c, warnings, rfl, (sources_iff h).mpr ?_⟩
    rw [hentries]
    intro name _ hcount
    by_cases hname : name = ascii "liked"
    · rw [hname]
      exact ⟨_, List.mem_cons_self⟩
    · simp [lastCount, Ne.symm hname] at hcount

/-- The resolver dereferences NULL, even on an empty database. -/
theorem unsourced_crashes : ∃ c warnings,
    configLoad doubles (.text unsourced) = .ok (c, warnings) ∧
      ¬ (c.HasSources ∧ ∀ env db, (c.resolve doubles env db).isSome) := by
  have hrun : (match configLoad doubles (.text unsourced) with
      | .ok (c, _) => (c.resolve doubles ResolverEnv.sample Db.empty).isNone
      | .error _ => false) = true := by decide +kernel
  cases h : configLoad doubles (.text unsourced) with
  | error e =>
    rw [h] at hrun
    cases hrun
  | ok r =>
    obtain ⟨c, warnings⟩ := r
    rw [h] at hrun
    refine ⟨c, warnings, rfl, ?_⟩
    rintro ⟨-, hall⟩
    have hsome := hall ResolverEnv.sample Db.empty
    rw [Option.isNone_iff_eq_none.mp hrun] at hsome
    cases hsome

end AddedBucket

end Nocturne
