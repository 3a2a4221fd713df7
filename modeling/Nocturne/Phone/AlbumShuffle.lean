import Nocturne.Lib.Blocks
import Nocturne.Lib.Shuffle
import Nocturne.Phone.MusicTree

/-!
# Album shuffle

`PlayerViewModel.enableAlbumShuffle` puts whole albums behind one another and hands the list to the
player. It also turns on the shuffle mode of the player, which has an order of its own: one that it
draws anew for each list of items.
-/

namespace Nocturne

open Lib Lib.Blocks

/-- What decides the order of playback in an `ExoPlayer`. -/
structure Player where
  mediaItems : List MediaItem
  currentMediaItemIndex : Nat
  shuffleModeEnabled : Bool
  shuffleOrder : List Nat

namespace Player

/-- `setMediaItems`, with the shuffle order that the player draws. -/
def setMediaItems (p : Player) (mediaItems : List MediaItem) (startIndex : Nat) (drawn : List Nat) :
    Player :=
  { p with
    mediaItems := mediaItems
    currentMediaItemIndex := startIndex
    shuffleOrder := drawn }

/-- The order of the indices: that of the list, or the shuffle order. -/
def order (p : Player) : List Nat :=
  if p.shuffleModeEnabled then p.shuffleOrder else List.range p.mediaItems.length

/-- What is played from the current item on, without repeats. -/
def playbackOrder (p : Player) : List MediaItem :=
  (p.order.dropWhile fun i ↦ i != p.currentMediaItemIndex).filterMap fun i ↦ p.mediaItems[i]?

end Player

namespace AlbumShuffle

/-- `starts`, `AlbumUnitShuffle.kt:45–50`. -/
def starts : Nat → List (List TrackEntity) → List Nat
  | _, [] => []
  | offset, album :: albums => offset :: starts (offset + album.length) albums

/-- `AlbumUnitShuffle.buildShuffledIndices`, `AlbumUnitShuffle.kt:39–67`; `shuffled` is
`MutableList.shuffle` with the random numbers of a seed. -/
def buildShuffledIndices (shuffled : Int → List Nat → List Nat) (albums : List (List TrackEntity))
    (seed : Int) : List Nat :=
  let nonEmpty := albums.filter fun album ↦ !album.isEmpty
  let totalTracks := (nonEmpty.map List.length).sum
  if totalTracks = 0 then []
  else
    (shuffled seed (List.range nonEmpty.length)).flatMap fun albumIdx ↦
      List.range' ((starts 0 nonEmpty)[albumIdx]?.getD 0) (nonEmpty[albumIdx]?.getD []).length

/-- `residentGroups`, `PlayerViewModel.kt:319–321`. -/
def residentGroups (albumGroups : List (List TrackEntity)) : List (List TrackEntity) :=
  (albumGroups.map fun g ↦ g.filter TrackEntity.isResident).filter fun g ↦ !g.isEmpty

/-- `enableAlbumShuffle`, `PlayerViewModel.kt:312–336`, on the player, if there is one; `drawn` is
the shuffle order that it draws. -/
def enableAlbumShuffle (shuffled : Int → List Nat → List Nat) (c : Option Player)
    (albumGroups : List (List TrackEntity)) (seed : Int) (musicTree : Option Text)
    (drawn : List Nat) : Option Player :=
  match c with
  | none => none
  | some p =>
    let groups := residentGroups albumGroups
    let flat := groups.flatten
    if flat.isEmpty then some p
    else
      let indices := buildShuffledIndices shuffled groups seed
      let shuffledItems := indices.filterMap fun i ↦
        flat[i]?.map fun t ↦ MusicTree.toMediaItem t musicTree none
      some { p.setMediaItems shuffledItems 0 drawn with shuffleModeEnabled := true }

/-- The player goes through the resident tracks once, album by album, and through each album in its
order. -/
def PlaysAlbumsWhole (musicTree : Option Text) (albumGroups : List (List TrackEntity))
    (p : Player) : Prop :=
  MadeOf ((residentGroups albumGroups).map
    (List.map fun t ↦ MusicTree.toMediaItem t musicTree none)) p.playbackOrder

/-- The positions of the albums in the list that the player gets. -/
def albumSpans (shuffled : Int → List Nat → List Nat) (albumGroups : List (List TrackEntity))
    (seed : Int) : List (List Nat) :=
  let groups := residentGroups albumGroups
  spans 0 ((shuffled seed (List.range groups.length)).map fun i ↦ (groups[i]?.getD []).length)

/-- An order that begins with the first position and goes on within each album as the list does. -/
def KeepsAlbums (albums : List (List Nat)) (drawn : List Nat) : Prop :=
  drawn.head? = some 0 ∧ ∀ album ∈ albums, ∀ i j, Next i j album → Next i j drawn

section Queue

variable {shuffled : Int → List Nat → List Nat} {albumGroups groups : List (List TrackEntity)}
  {seed : Int}

theorem flatten_residentGroups :
    (residentGroups albumGroups).flatten = albumGroups.flatten.filter TrackEntity.isResident := by
  induction albumGroups with
  | nil => rfl
  | cons g albumGroups ih =>
    rw [List.flatten_cons, List.filter_append, ← ih, residentGroups, residentGroups, List.map_cons]
    cases h : g.filter TrackEntity.isResident with
    | nil => simp
    | cons t ts => simp

theorem residentGroups_ne_nil : ∀ g ∈ residentGroups albumGroups, g ≠ [] := by
  intro g hg
  have := (List.mem_filter.mp hg).2
  simpa using this

/-- The starts and the sizes of the albums span their positions. -/
theorem getElem?_spans (offset : Nat) (groups : List (List TrackEntity)) (i : Nat) :
    (spans offset (groups.map List.length))[i]? =
      (groups[i]?).map fun g ↦ List.range' ((starts offset groups)[i]?.getD 0) g.length := by
  induction groups generalizing offset i with
  | nil => simp [spans]
  | cons g groups ih =>
    cases i with
    | zero => simp [spans, starts]
    | succ i => simp [spans, starts, ih]

/-- The indices are the positions of the albums, album by album in the drawn order. -/
theorem madeOf_buildShuffledIndices (hshuffled : ∀ xs, (shuffled seed xs).Perm xs) :
    MadeOf (spans 0 ((groups.filter fun album ↦ !album.isEmpty).map List.length))
      (buildShuffledIndices shuffled groups seed) := by
  unfold buildShuffledIndices
  simp only
  generalize groups.filter (fun album ↦ !album.isEmpty) = nonEmpty
  split
  · next hnone =>
    refine ⟨_, List.Perm.refl _, ?_⟩
    rw [flatten_spans, hnone]
    rfl
  · have hspans : (List.range nonEmpty.length).map (fun i ↦
        List.range' ((starts 0 nonEmpty)[i]?.getD 0) (nonEmpty[i]?.getD []).length) =
        spans 0 (nonEmpty.map List.length) := by
      apply List.ext_getElem?
      intro i
      rw [getElem?_spans]
      by_cases hi : i < nonEmpty.length <;> simp [hi]
    refine ⟨_, ?_, List.flatMap_def⟩
    rw [← hspans]
    exact (hshuffled _).map _

/-- With any random numbers the indices are a permutation of the positions, and the positions of an
album that is not empty are one run of them. -/
theorem buildShuffledIndices_albumwise {S : Type} (draw : S → Nat × S) (source : Int → S)
    (albums : List (List TrackEntity)) (seed : Int) :
    let indices :=
      buildShuffledIndices (fun seed xs ↦ (shuffle draw xs (source seed)).1) albums seed
    indices.Perm (List.range (albums.map List.length).sum) ∧
      ∀ i, ∀ hi : i < albums.length, albums[i] ≠ [] →
        let run := List.range' ((albums.take i).map List.length).sum albums[i].length
        run <:+: indices ∧ run.Pairwise (· < ·) := by
  intro indices
  have hmade : MadeOf (spans 0 ((albums.filter fun album ↦ !album.isEmpty).map List.length))
      indices := madeOf_buildShuffledIndices fun xs ↦ shuffle_perm xs (source seed)
  have hsizes : (albums.filter fun album ↦ !album.isEmpty).map List.length =
      (albums.map List.length).filter fun size ↦ size != 0 := by
    rw [List.filter_map]
    congr 2
    funext album
    cases album <;> rfl
  rw [hsizes, ← filter_spans] at hmade
  constructor
  · have hall : ((spans 0 (albums.map List.length)).filter fun span ↦ !span.isEmpty).flatten =
        List.range (albums.map List.length).sum := by
      rw [List.flatten_filter_not_isEmpty, flatten_spans, List.range_eq_range']
    rw [← hall]
    exact hmade.perm
  · intro i hi hne run
    have hmem := span_mem_spans 0 i (show i < (albums.map List.length).length by simpa using hi)
    rw [List.getElem_map, ← List.map_take, Nat.zero_add] at hmem
    obtain ⟨blocks, hblocks, heq⟩ := hmade
    refine ⟨?_, List.pairwise_lt_range'⟩
    rw [heq]
    apply List.infix_of_mem_flatten
    apply hblocks.mem_iff.mpr
    refine List.mem_filter.mpr ⟨hmem, ?_⟩
    simpa [run] using hne

/-- The albums in the order that was drawn for them. -/
def queueAlbums (shuffled : Int → List Nat → List Nat) (groups : List (List TrackEntity))
    (seed : Int) : List (List TrackEntity) :=
  (shuffled seed (List.range groups.length)).map fun i ↦ groups[i]?.getD []

theorem perm_queueAlbums (hshuffled : ∀ xs, (shuffled seed xs).Perm xs) :
    (queueAlbums shuffled groups seed).Perm groups := by
  apply ((hshuffled _).map _).trans
  rw [List.perm_iff_count]
  intro g
  congr 1
  apply List.ext_getElem?
  intro i
  by_cases hi : i < groups.length <;> simp [hi]

/-- The indices of one album pick its tracks. -/
theorem filterMap_album {i : Nat} (hi : i < groups.length) :
    (List.range' ((starts 0 groups)[i]?.getD 0) (groups[i]?.getD []).length).filterMap
      (fun j ↦ groups.flatten[j]?) = groups[i]?.getD [] := by
  have hspan := congrArg (fun l : List (List (Option TrackEntity)) ↦ l[i]?)
    (map_spans [] groups)
  simp only [List.length_nil, List.nil_append, List.getElem?_map, getElem?_spans,
    List.getElem?_eq_getElem hi, Option.map_some, Option.some.injEq] at hspan
  rw [List.getElem?_eq_getElem hi, Option.getD_some]
  calc _ = (groups[i].map some).filterMap id := by rw [← hspan, List.filterMap_map]; rfl
    _ = groups[i] := by simp [List.filterMap_map]

/-- The indices pick the albums whole, in the order that was drawn for them. -/
theorem filterMap_buildShuffledIndices (hshuffled : ∀ xs, (shuffled seed xs).Perm xs)
    (hne : ∀ g ∈ groups, g ≠ []) :
    (buildShuffledIndices shuffled groups seed).filterMap (fun i ↦ groups.flatten[i]?) =
      (queueAlbums shuffled groups seed).flatten := by
  have hfilter : (groups.filter fun album ↦ !album.isEmpty) = groups :=
    List.filter_eq_self.mpr fun g hg ↦ by simpa using hne g hg
  rw [buildShuffledIndices, hfilter]
  split
  · next hzero =>
    have hnil : groups.flatten = [] := by
      rw [← List.length_eq_zero_iff, List.length_flatten, hzero]
    have hqueue := (@perm_queueAlbums shuffled groups seed hshuffled).flatten
    rw [hnil, List.perm_nil] at hqueue
    rw [hqueue, List.filterMap_nil]
  · rw [List.filterMap_flatMap, queueAlbums, List.flatMap_def]
    congr 1
    apply List.map_congr_left
    intro i hi
    exact filterMap_album (List.mem_range.mp ((hshuffled _).mem_iff.mp hi))

end Queue

section Playback

variable {shuffled : Int → List Nat → List Nat} {albumGroups : List (List TrackEntity)}
  {seed : Int} {musicTree : Option Text} {drawn : List Nat}

/-- The list that the player gets. -/
def queueItems (shuffled : Int → List Nat → List Nat) (albumGroups : List (List TrackEntity))
    (seed : Int) (musicTree : Option Text) : List MediaItem :=
  (queueAlbums shuffled (residentGroups albumGroups) seed).flatten.map
    fun t ↦ MusicTree.toMediaItem t musicTree none

theorem enableAlbumShuffle_eq (hshuffled : ∀ xs, (shuffled seed xs).Perm xs) (p : Player)
    (hres : (residentGroups albumGroups).flatten ≠ []) :
    enableAlbumShuffle shuffled (some p) albumGroups seed musicTree drawn =
      some ⟨queueItems shuffled albumGroups seed musicTree, 0, true, drawn⟩ := by
  have hsome : (residentGroups albumGroups).flatten.isEmpty = false := by
    rwa [← Bool.not_eq_true, List.isEmpty_iff]
  simp only [enableAlbumShuffle, hsome, Player.setMediaItems, Bool.false_eq_true, if_false]
  rw [queueItems, ← filterMap_buildShuffledIndices hshuffled residentGroups_ne_nil,
    List.map_filterMap]

/-- Tracks with different ids are different items. -/
theorem nodup_queueItems (hshuffled : ∀ xs, (shuffled seed xs).Perm xs)
    (hids : (albumGroups.flatten.map TrackEntity.id).Nodup) :
    (queueItems shuffled albumGroups seed musicTree).Nodup := by
  apply List.Nodup.of_map MediaItem.mediaId
  rw [queueItems, List.map_map]
  have hperm := (@perm_queueAlbums shuffled (residentGroups albumGroups) seed hshuffled).flatten
  apply ((hperm.map _).nodup_iff).mpr
  rw [flatten_residentGroups]
  exact hids.sublist (List.filter_sublist.map _)

theorem length_queueItems (hshuffled : ∀ xs, (shuffled seed xs).Perm xs) :
    (queueItems shuffled albumGroups seed musicTree).length =
      (residentGroups albumGroups).flatten.length := by
  rw [queueItems, List.length_map]
  exact (perm_queueAlbums hshuffled).flatten.length_eq

/-- Positions in range pick an item each. -/
theorem filterMap_getElem? {α : Type} (d : α) {xs : List α} {is : List Nat}
    (h : ∀ i ∈ is, i < xs.length) :
    is.filterMap (fun i ↦ xs[i]?) = is.map fun i ↦ xs[i]?.getD d := by
  rw [← List.filterMap_eq_map]
  apply List.filterMap_congr
  intro i hi
  simp [h i hi]

theorem filterMap_range {α : Type} (xs : List α) :
    (List.range xs.length).filterMap (fun i ↦ xs[i]?) = xs := by
  have h : (List.range xs.length).map (fun i ↦ xs[i]?) = xs.map some := by
    apply List.ext_getElem <;> simp
  calc _ = (xs.map some).filterMap id := by rw [← h, List.filterMap_map]; rfl
    _ = xs := by simp [List.filterMap_map]

/-- An order that starts elsewhere leaves out what comes before. -/
theorem length_dropWhile_lt {is : List Nat} (hne : is ≠ []) (h : is.head? ≠ some 0) :
    (is.dropWhile fun i ↦ i != 0).length < is.length := by
  cases is with
  | nil => exact absurd rfl hne
  | cons i is =>
    have hi : (i != 0) = true := by simpa using h
    simp only [List.dropWhile_cons, hi, if_true, List.length_cons]
    exact Nat.lt_succ_of_le (List.dropWhile_suffix _).length_le

/-- Where the player starts with the first position, it plays the items in its order. -/
theorem playbackOrder_of_head (d : MediaItem) {items : List MediaItem}
    (hhead : drawn.head? = some 0) (hdrawn : ∀ i ∈ drawn, i < items.length) :
    Player.playbackOrder ⟨items, 0, true, drawn⟩ = drawn.map fun i ↦ items[i]?.getD d := by
  rw [← filterMap_getElem? d hdrawn, Player.playbackOrder]
  congr 1
  cases drawn with
  | nil => rfl
  | cons i is =>
    rw [List.head?_cons, Option.some.injEq] at hhead
    simp [Player.order, hhead]

/-- The albums in their drawn order stand at their positions in the list. -/
theorem map_albumSpans (d : MediaItem) :
    (albumSpans shuffled albumGroups seed).map
        (List.map fun i ↦ (queueItems shuffled albumGroups seed musicTree)[i]?.getD d) =
      (queueAlbums shuffled (residentGroups albumGroups) seed).map
        (List.map fun t ↦ MusicTree.toMediaItem t musicTree none) := by
  have h := map_spans_getD d ((queueAlbums shuffled (residentGroups albumGroups) seed).map
    (List.map fun t ↦ MusicTree.toMediaItem t musicTree none))
  rw [List.map_map, ← List.map_flatten] at h
  have hsizes : (queueAlbums shuffled (residentGroups albumGroups) seed).map
      (List.length ∘ List.map fun t ↦ MusicTree.toMediaItem t musicTree none) =
      (shuffled seed (List.range (residentGroups albumGroups).length)).map
        fun i ↦ ((residentGroups albumGroups)[i]?.getD []).length := by
    simp [queueAlbums, Function.comp_def]
  rwa [hsizes] at h

theorem flatten_albumSpans (hshuffled : ∀ xs, (shuffled seed xs).Perm xs) :
    (albumSpans shuffled albumGroups seed).flatten =
      List.range (residentGroups albumGroups).flatten.length := by
  have hperm := @perm_queueAlbums shuffled (residentGroups albumGroups) seed hshuffled
  have hsum := hperm.flatten.length_eq
  rw [List.length_flatten, queueAlbums, List.map_map] at hsum
  rw [albumSpans, flatten_spans, ← hsum]
  exact List.range_eq_range'.symm

theorem albumSpans_ne_nil (hshuffled : ∀ xs, (shuffled seed xs).Perm xs) :
    ∀ album ∈ albumSpans shuffled albumGroups seed, album ≠ [] := by
  rintro album halbum rfl
  obtain ⟨i, hi, hlength⟩ := List.mem_map.mp (length_of_mem_spans halbum)
  have hlt := List.mem_range.mp ((hshuffled _).mem_iff.mp hi)
  rw [List.getElem?_eq_getElem hlt, Option.getD_some, List.length_nil,
    List.length_eq_zero_iff] at hlength
  exact residentGroups_ne_nil _ (List.getElem_mem hlt) hlength

/-- In the order of the list, that is without the shuffle mode, the albums would be played whole. -/
theorem listed_whole (hshuffled : ∀ xs, (shuffled seed xs).Perm xs) :
    PlaysAlbumsWhole musicTree albumGroups
      ⟨queueItems shuffled albumGroups seed musicTree, 0, false, drawn⟩ := by
  refine ⟨_, (perm_queueAlbums hshuffled).map _, ?_⟩
  have hstart : ∀ n, ((List.range n).dropWhile fun i ↦ i != 0) = List.range n := by
    intro n
    cases n with
    | zero => rfl
    | succ n => rw [List.range_succ_eq_map]; rfl
  rw [← List.map_flatten, Player.playbackOrder, Player.order, if_neg Bool.false_ne_true, hstart,
    filterMap_range]
  rfl

variable (hdrawn : drawn.Perm (List.range (residentGroups albumGroups).flatten.length))
include hdrawn

/-- Where the player starts within its order, it does not come to all items. -/
theorem head_of_playsAlbumsWhole (hres : (residentGroups albumGroups).flatten ≠ [])
    (h : PlaysAlbumsWhole musicTree albumGroups
      ⟨queueItems shuffled albumGroups seed musicTree, 0, true, drawn⟩) :
    drawn.head? = some 0 := by
  by_contra hhead
  have hne : drawn ≠ [] := by
    rintro rfl
    have := hdrawn.length_eq
    rw [List.length_nil, List.length_range] at this
    exact hres (List.length_eq_zero_iff.mp this.symm)
  have hlength := h.perm.length_eq
  rw [← List.map_flatten, List.length_map] at hlength
  have hplayed : (Player.playbackOrder
      ⟨queueItems shuffled albumGroups seed musicTree, 0, true, drawn⟩).length ≤
      (drawn.dropWhile fun i ↦ i != 0).length := List.length_filterMap_le ..
  have hshort := length_dropWhile_lt hne hhead
  have hall := hdrawn.length_eq
  rw [List.length_range] at hall
  omega

variable (hshuffled : ∀ xs, (shuffled seed xs).Perm xs)
include hshuffled

/-- From the first position on, the albums are played whole where the order goes on within each of
them. -/
theorem playsAlbumsWhole_iff (hids : (albumGroups.flatten.map TrackEntity.id).Nodup)
    (hhead : drawn.head? = some 0) :
    PlaysAlbumsWhole musicTree albumGroups
        ⟨queueItems shuffled albumGroups seed musicTree, 0, true, drawn⟩ ↔
      ∀ album ∈ albumSpans shuffled albumGroups seed, ∀ i j, Next i j album → Next i j drawn := by
  have hrange : ∀ i ∈ drawn, i < (queueItems shuffled albumGroups seed musicTree).length := by
    intro i hi
    rw [length_queueItems hshuffled]
    exact List.mem_range.mp (hdrawn.mem_iff.mp hi)
  have hfirst : 0 < (queueItems shuffled albumGroups seed musicTree).length :=
    hrange 0 (List.mem_of_head? hhead)
  generalize hd : (queueItems shuffled albumGroups seed musicTree)[0] = d
  rw [PlaysAlbumsWhole, playbackOrder_of_head d hhead hrange,
    ← madeOf_congr ((perm_queueAlbums hshuffled).map _), ← map_albumSpans d]
  apply madeOf_map
  · intro i hi j hj hij
    have hi' := hrange i hi
    have hj' := hrange j hj
    simp only [List.getElem?_eq_getElem hi', List.getElem?_eq_getElem hj', Option.getD_some] at hij
    exact (List.Nodup.getElem_inj_iff (nodup_queueItems hshuffled hids)).mp hij
  · exact albumSpans_ne_nil hshuffled
  · exact hdrawn.nodup_iff.mpr List.nodup_range
  · rw [flatten_albumSpans hshuffled]
    exact hdrawn

end Playback

/-- The albums are played whole exactly where the order that the player draws keeps them
together. -/
theorem albums_whole_iff (shuffled : Int → List Nat → List Nat) (p : Player)
    (albumGroups : List (List TrackEntity)) (seed : Int) (musicTree : Option Text)
    (drawn : List Nat) (hshuffled : ∀ xs, (shuffled seed xs).Perm xs)
    (hids : (albumGroups.flatten.map TrackEntity.id).Nodup)
    (hres : (residentGroups albumGroups).flatten ≠ [])
    (hdrawn : drawn.Perm (List.range (residentGroups albumGroups).flatten.length)) :
    ∃ p', enableAlbumShuffle shuffled (some p) albumGroups seed musicTree drawn = some p' ∧
      (PlaysAlbumsWhole musicTree albumGroups p' ↔
        KeepsAlbums (albumSpans shuffled albumGroups seed) drawn) := by
  refine ⟨_, enableAlbumShuffle_eq hshuffled p hres, ?_⟩
  constructor
  · intro h
    have hhead := head_of_playsAlbumsWhole hdrawn hres h
    exact ⟨hhead, (playsAlbumsWhole_iff hdrawn hshuffled hids hhead).mp h⟩
  · rintro ⟨hhead, hkeeps⟩
    exact (playsAlbumsWhole_iff hdrawn hshuffled hids hhead).mpr hkeeps

/-- Two albums, of two tracks and of one. -/
def twoAlbums : List (List TrackEntity) :=
  [[{ MusicTree.rowAt (ascii "A/1") with id := ascii "a1" },
    { MusicTree.rowAt (ascii "A/2") with id := ascii "a2" }],
   [{ MusicTree.rowAt (ascii "B/1") with id := ascii "b1" }]]

/-- A player without items. -/
def idle : Player := ⟨[], 0, false, []⟩

theorem albums_whole_kept : ∃ p', enableAlbumShuffle (fun _ xs ↦ xs) (some idle) twoAlbums 0
      (some (ascii "m")) [0, 1, 2] = some p' ∧
    PlaysAlbumsWhole (some (ascii "m")) twoAlbums p' := by
  obtain ⟨p', hp', hiff⟩ := albums_whole_iff (fun _ xs ↦ xs) idle twoAlbums 0 (some (ascii "m"))
    [0, 1, 2] (fun xs ↦ List.Perm.refl xs) (by decide) (by decide) (by decide)
  refine ⟨p', hp', hiff.mpr ⟨rfl, ?_⟩⟩
  intro album halbum i j hij
  have hall : [0, 1, 2] = (albumSpans (fun _ xs ↦ xs) twoAlbums 0).flatten := by decide
  rw [hall]
  exact hij.trans (List.infix_of_mem_flatten halbum)

/-- The player draws an order that plays the second album between the tracks of the first one. -/
theorem album_torn : ∃ p', enableAlbumShuffle (fun _ xs ↦ xs) (some idle) twoAlbums 0
      (some (ascii "m")) [0, 2, 1] = some p' ∧
    ¬ PlaysAlbumsWhole (some (ascii "m")) twoAlbums p' := by
  refine ⟨_, rfl, ?_⟩
  rintro ⟨blocks, hblocks, hplayed⟩
  have hnext := List.infix_of_mem_flatten (hblocks.mem_iff.mpr (List.mem_cons_self ..))
  rw [← hplayed] at hnext
  revert hnext
  decide

end AlbumShuffle

end Nocturne
