import Nocturne.Numbers
import Nocturne.Resolve.Buckets

/-!
# The windows of the play buckets

The play buckets compare `strftime('%s', played_at)`, which is a text, with the cutoff, which is an
integer, and for SQLite every integer comes before every text. The plays before the window
therefore count like the others, unless they do not matter.
-/

namespace Nocturne

open Lib

/-- The time of a play in seconds, where there is one. -/
def PlayRow.time (env : ResolverEnv) (p : PlayRow) : Option Int := (env.strftime p.playedAt).map atoll

/-- The play was before the cutoff. -/
def PlayRow.isBefore (env : ResolverEnv) (cutoff : Int) (p : PlayRow) : Bool :=
  match p.time env with
  | some t => decide (t < cutoff)
  | none => false

/-- A play of a track on a phone that was not skipped and whose time is known, unless the window is
all of time. -/
def PlayRow.counts (env : ResolverEnv) (cutoff : Int) (sha : Sha) (p : PlayRow) : Bool :=
  p.sha256 == sha && isPhone p.src && !p.isSkip && (cutoff == 0 || (p.time env).isSome)

/-- The database without the plays before the cutoff. -/
def Db.within (db : Db) (env : ResolverEnv) (cutoff : Int) : Db :=
  { db with plays := db.plays.filter fun p ↦ !p.isBefore env cutoff }

/-- The plays before its window add no track to the rows of a bucket and have no part in the values
that order them. -/
def WindowEnforced (env : ResolverEnv) (cfg : ResolverConfig) (db : Db) (bc : BucketConfig) : Prop :=
  bucketQuery env cfg db bc = bucketQuery env cfg (db.within env (bc.cutoff env)) bc

/-- No track was played before the cutoff. -/
def NonePlayedBefore (env : ResolverEnv) (db : Db) (cutoff : Int) : Prop :=
  ∀ sha, (db.tracks.get? sha).isSome → ∀ p ∈ db.plays, p.counts env cutoff sha = true →
    p.isBefore env cutoff = false

/-- A track that was played before the cutoff was also played later, and in the order of the texts
no earlier. -/
def PlayedSince (env : ResolverEnv) (db : Db) (cutoff : Int) : Prop :=
  ∀ sha, (db.tracks.get? sha).isSome → ∀ p ∈ db.plays, p.counts env cutoff sha = true →
    p.isBefore env cutoff = true →
      ∃ q ∈ db.plays, q.counts env cutoff sha = true ∧ q.isBefore env cutoff = false ∧
        p.playedAt ≤ q.playedAt

section Windows

variable {env : ResolverEnv} {cfg : ResolverConfig} {db : Db} {bc : BucketConfig} {cutoff : Int}
  {sha : Sha} {row : TrackRow}

/-- Every time is behind the cutoff. -/
theorem playedSince_eq (env : ResolverEnv) (cutoff : Int) (playedAt : Text) :
    playedSince env cutoff playedAt = (env.strftime playedAt).isSome := by
  unfold playedSince
  cases env.strftime playedAt <;> rfl

/-- The plays that count are those of a phone that are no skips and within the bound. -/
theorem phonePlays_eq (env : ResolverEnv) (db : Db) (cutoff : Int) (sha : Sha) :
    db.phonePlays env cutoff sha = db.plays.filter fun p ↦ p.counts env cutoff sha := by
  unfold Db.phonePlays PlayRow.counts PlayRow.time
  simp only [playedSince_eq, Option.isSome_map]

/-- Cutting off the older plays leaves the later ones of those that count. -/
theorem phonePlays_within (env : ResolverEnv) (db : Db) (cutoff : Int) (sha : Sha) :
    (db.within env cutoff).phonePlays env cutoff sha =
      (db.phonePlays env cutoff sha).filter fun p ↦ !p.isBefore env cutoff := by
  rw [phonePlays_eq, phonePlays_eq, Db.within, List.filter_filter, List.filter_filter]
  simp only [Bool.and_comm]

/-- Two selections are the same when every track has the same key in both. -/
theorem pick_eq_iff {key key' : Sha → TrackRow → Option SqlValue} :
    db.pick key = db.pick key' ↔
      ∀ sha row, db.tracks.get? sha = some row → key sha row = key' sha row := by
  constructor
  · intro h sha row hrow
    have half : ∀ {key key' : Sha → TrackRow → Option SqlValue}, db.pick key = db.pick key' →
        ∀ k, key sha row = some k → key' sha row = some k := by
      intro key key' h k hk
      have hmem : (⟨sha, row.sizeBytes, k⟩ : Picked) ∈ db.pick key :=
        mem_pick.mpr ⟨row, hrow, hk, rfl⟩
      rw [h] at hmem
      obtain ⟨row', hrow', hk', -⟩ := mem_pick.mp hmem
      rw [hrow] at hrow'
      cases hrow'
      exact hk'
    apply Option.ext
    exact fun k ↦ ⟨half h k, half h.symm k⟩
  · intro h
    unfold Db.pick
    apply List.filterMap_congr
    rintro ⟨sha, row⟩ hr
    rw [h sha row (Table.mem_rows.mp hr)]

/-- The count is that of the window exactly where no play that counts is before it. -/
theorem topPlayed_within_iff :
    topPlayed db env cutoff sha row = topPlayed (db.within env cutoff) env cutoff sha row ↔
      ∀ p ∈ db.plays, p.counts env cutoff sha = true → p.isBefore env cutoff = false := by
  have hlen : topPlayed db env cutoff sha row = topPlayed (db.within env cutoff) env cutoff sha row ↔
      (db.phonePlays env cutoff sha).length =
        ((db.phonePlays env cutoff sha).filter fun p ↦ !p.isBefore env cutoff).length := by
    unfold topPlayed
    rw [phonePlays_within]
    generalize (db.phonePlays env cutoff sha).length = n
    generalize ((db.phonePlays env cutoff sha).filter fun p ↦ !p.isBefore env cutoff).length = m
    cases n <;> cases m <;> simp
  rw [hlen, eq_comm, List.length_filter_eq_length_iff, phonePlays_eq]
  simp only [List.mem_filter, Bool.not_eq_true', and_imp]

/-- The largest of some values is among those that are left when it is. -/
theorem max?_filter_eq_iff {α : Type} (f : α → Text) (p : α → Bool) (xs : List α) :
    (xs.map f).max? = ((xs.filter p).map f).max? ↔
      ∀ x ∈ xs, p x = false → ∃ y ∈ xs, p y = true ∧ f x ≤ f y := by
  constructor
  · intro h x hx _
    have hsome : ((xs.map f).max?).isSome := by
      rw [List.isSome_max?_iff]
      exact List.ne_nil_of_mem (List.mem_map_of_mem hx)
    obtain ⟨m, hm⟩ := Option.isSome_iff_exists.mp hsome
    have hle := (List.max?_eq_some_iff.mp hm).2 (f x) (List.mem_map_of_mem hx)
    rw [h] at hm
    obtain ⟨y, hy, rfl⟩ := List.mem_map.mp (List.max?_eq_some_iff.mp hm).1
    rw [List.mem_filter] at hy
    exact ⟨y, hy.1, hy.2, hle⟩
  · intro h
    ext m
    rw [List.max?_eq_some_iff, List.max?_eq_some_iff]
    constructor
    · rintro ⟨hm, hmax⟩
      obtain ⟨x, hx, rfl⟩ := List.mem_map.mp hm
      have hfiltered : ∃ y ∈ xs.filter p, f y = f x := by
        by_cases hp : p x = true
        · exact ⟨x, List.mem_filter.mpr ⟨hx, hp⟩, rfl⟩
        · obtain ⟨y, hy, hpy, hle⟩ := h x hx (by simpa using hp)
          have hge := hmax (f y) (List.mem_map_of_mem hy)
          exact ⟨y, List.mem_filter.mpr ⟨hy, hpy⟩, le_antisymm hge hle⟩
      obtain ⟨y, hy, hyx⟩ := hfiltered
      refine ⟨List.mem_map.mpr ⟨y, hy, hyx⟩, fun b hb ↦ hmax b ?_⟩
      exact (List.filter_sublist.map f).subset hb
    · rintro ⟨hm, hmax⟩
      refine ⟨(List.filter_sublist.map f).subset hm, fun b hb ↦ ?_⟩
      obtain ⟨x, hx, rfl⟩ := List.mem_map.mp hb
      by_cases hp : p x = true
      · exact hmax _ (List.mem_map_of_mem (List.mem_filter.mpr ⟨hx, hp⟩))
      · obtain ⟨y, hy, hpy, hle⟩ := h x hx (by simpa using hp)
        exact hle.trans (hmax _ (List.mem_map_of_mem (List.mem_filter.mpr ⟨hy, hpy⟩)))

/-- The last play is that of the window exactly where no play before it is later than all of those in it
that count. -/
theorem recentPlays_within_iff :
    recentPlays db env cutoff sha row = recentPlays (db.within env cutoff) env cutoff sha row ↔
      ∀ p ∈ db.plays, p.counts env cutoff sha = true → p.isBefore env cutoff = true →
        ∃ q ∈ db.plays, q.counts env cutoff sha = true ∧ q.isBefore env cutoff = false ∧
          p.playedAt ≤ q.playedAt := by
  have hinj : Function.Injective SqlValue.text := fun _ _ h ↦ SqlValue.text.inj h
  unfold recentPlays
  rw [phonePlays_within, (Option.map_injective hinj).eq_iff, max?_filter_eq_iff, phonePlays_eq]
  simp only [List.mem_filter, Bool.not_eq_true', Bool.not_eq_false', and_imp, and_assoc]

/-- The bucket of the most played tracks. -/
theorem bucketQuery_topPlayed (env : ResolverEnv) (cfg : ResolverConfig) (db : Db)
    (h : bc.source = ascii "top_played_phone") : bucketQuery env cfg db bc =
      some ⟨db.pick (topPlayed db env (bc.cutoff env)), descending, bc.count.toNat⟩ := by
  unfold bucketQuery bucketSource
  rw [h]
  rfl

/-- The bucket of the last played tracks. -/
theorem bucketQuery_recentPlays (env : ResolverEnv) (cfg : ResolverConfig) (db : Db)
    (h : bc.source = ascii "recent_plays_phone") : bucketQuery env cfg db bc =
      some ⟨db.pick (recentPlays db env (bc.cutoff env)), descending, bc.count.toNat⟩ := by
  unfold bucketQuery bucketSource
  rw [h]
  rfl

/-- The first kind of bucket keeps to its window where no play is before it. -/
theorem windowEnforced_topPlayed (h : bc.source = ascii "top_played_phone") :
    WindowEnforced env cfg db bc ↔ NonePlayedBefore env db (bc.cutoff env) := by
  rw [WindowEnforced, bucketQuery_topPlayed env cfg _ h, bucketQuery_topPlayed env cfg _ h,
    Option.some.injEq, Query.mk.injEq]
  simp only [and_self, and_true]
  show db.pick _ = db.pick _ ↔ _
  rw [pick_eq_iff, NonePlayedBefore]
  simp only [topPlayed_within_iff]
  constructor
  · intro hall sha hsome
    obtain ⟨row, hrow⟩ := Option.isSome_iff_exists.mp hsome
    exact hall sha row hrow
  · intro hall sha row hrow
    exact hall sha (by rw [hrow]; rfl)

/-- The second one does where each track that was played has been played since. -/
theorem windowEnforced_recentPlays (h : bc.source = ascii "recent_plays_phone") :
    WindowEnforced env cfg db bc ↔ PlayedSince env db (bc.cutoff env) := by
  rw [WindowEnforced, bucketQuery_recentPlays env cfg _ h, bucketQuery_recentPlays env cfg _ h,
    Option.some.injEq, Query.mk.injEq]
  simp only [and_self, and_true]
  show db.pick _ = db.pick _ ↔ _
  rw [pick_eq_iff, PlayedSince]
  simp only [recentPlays_within_iff]
  constructor
  · intro hall sha hsome
    obtain ⟨row, hrow⟩ := Option.isSome_iff_exists.mp hsome
    exact hall sha row hrow
  · intro hall sha row hrow
    exact hall sha (by rw [hrow]; rfl)

/-- The window of a bucket of most played tracks holds exactly where no track was played before it,
and that of a bucket of recent plays where a track that was played before it was also played later,
and in the order of the texts no earlier. -/
theorem windows_enforced_iff (env : ResolverEnv) (cfg : ResolverConfig) (db : Db)
    (bc : BucketConfig) :
    (bc.source = ascii "top_played_phone" →
        (WindowEnforced env cfg db bc ↔ NonePlayedBefore env db (bc.cutoff env))) ∧
      (bc.source = ascii "recent_plays_phone" →
        (WindowEnforced env cfg db bc ↔ PlayedSince env db (bc.cutoff env))) :=
  ⟨windowEnforced_topPlayed, windowEnforced_recentPlays⟩

end Windows

namespace OldPlay

/-- A bucket with a window. -/
def bucket (source : Text) (windowDays : Int) : BucketConfig :=
  ⟨ascii "plays", 80, source, windowDays⟩

def cfg : ResolverConfig := ⟨0, 1, 0, 0, 0, [], by decide⟩

/-- The time of the play that is read. -/
def env : ResolverEnv :=
  { ResolverEnv.sample with
    strftime := fun text ↦
      if text = ascii "2020-01-01T00:00:00.000Z" then some (ascii "1577836800") else none }

/-- One track, and one play of it six years ago. -/
def db : Db :=
  { Db.ofTracks [([97], 1)] with
    plays := [⟨[97], ascii "2020-01-01T00:00:00.000Z", 200000, false, ascii "phone-a", 1577836800000,
      ascii "play", [ascii "a.jsonl"]⟩] }

/-- Both buckets take it. -/
theorem old_play_taken :
    ¬ WindowEnforced env cfg db (bucket (ascii "top_played_phone") 90) ∧
      ¬ WindowEnforced env cfg db (bucket (ascii "recent_plays_phone") 90) := by
  have hknown : (db.tracks.get? [97]).isSome := Db.ofTracks_known [([97], 1)] _ (List.mem_cons_self ..)
  constructor
  · rw [windowEnforced_topPlayed rfl]
    intro h
    have hbefore := h [97] hknown _ (List.mem_cons_self ..) (by decide +kernel)
    revert hbefore
    decide +kernel
  · rw [windowEnforced_recentPlays rfl]
    intro h
    obtain ⟨q, hq, -, hlate, -⟩ := h [97] hknown _ (List.mem_cons_self ..) (by decide +kernel)
      (by decide +kernel)
    rw [List.mem_singleton.mp hq] at hlate
    revert hlate
    decide +kernel

/-- A window of ten years holds for the bucket of recent plays. -/
theorem old_play_within :
    WindowEnforced env cfg db (bucket (ascii "recent_plays_phone") 3650) := by
  apply ((windows_enforced_iff env cfg db _).2 rfl).mpr
  intro sha _ p hp _ hbefore
  rw [List.mem_singleton.mp hp] at hbefore
  exact absurd hbefore (by decide +kernel)

end OldPlay

end Nocturne
