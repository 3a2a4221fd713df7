import Mathlib.Data.Int.Order.Basic
import Mathlib.Order.Bounds.Defs
import Nocturne.Watch.Loop
import Nocturne.Lib.Compact

/-!
# The array of the debounce queue

`struct debounce_queue` is a growing array that is searched from the front and compacted in place.
It refines `DebounceQueue`. `dqRun_correct` says what it holds, reports and waits for after any run
of `dq_push` and `dq_drain_due`.
-/

namespace Nocturne

open Lib Lib.Steps

/-- `LLONG_MAX`. -/
def llongMax : Int := 2 ^ 63 - 1

/-- What the allocator answers during a push. -/
structure DqMem where
  realloc : Bool
  strdup : Bool
  deriving DecidableEq, Repr

/-- `struct debounce_queue`. The capacity is the length of `items`. -/
structure DqArray where
  items : List DqEntry
  count : Nat
  debounceMs : Int
  count_le : count ≤ items.length

namespace DqArray

/-- The entries in use. -/
def live (a : DqArray) : List DqEntry := a.items.take a.count

/-- `dq_init`, `watch.c:108–114`. -/
def init (debounceMs : Int) : DqArray := ⟨[], 0, debounceMs, List.length_nil.ge⟩

/-- What a slot holds that `realloc` has just made. -/
def blank : DqEntry := ⟨[], 0⟩

/-- `dq_grow`, `watch.c:125–133`: 16 slots at first, then twice as many. -/
def grow (items : List DqEntry) : List DqEntry :=
  items ++ List.replicate (if items.length = 0 then 16 else items.length) blank

/-- The array that has grown has more slots. -/
theorem length_lt_grow {items : List DqEntry} : items.length < (grow items).length := by
  unfold grow
  rw [List.length_append, List.length_replicate]
  split <;> omega

/-- The slots that a push of a new directory writes to. -/
def room (a : DqArray) : List DqEntry := if a.count = a.items.length then grow a.items else a.items

/-- In the array with room there is a free slot. -/
theorem count_lt_room {a : DqArray} : a.count < a.room.length := by
  have hle := a.count_le
  unfold room
  split
  · next hfull => exact hfull ▸ length_lt_grow
  · omega

/-- Making room keeps the entries. -/
theorem take_room {a : DqArray} : a.room.take a.count = a.live := by
  unfold room live
  split
  · exact List.take_append_of_le_length a.count_le
  · rfl

/-- `dq_push`, `watch.c:135–151`, and whether it returns 0. -/
def push (a : DqArray) (dir : Path) (nowMs : Int) (mem : DqMem) : DqArray × Bool :=
  match a.live.findIdx? fun e ↦ e.dir = dir with
  | some i =>
    ({ a with
        items := a.items.modify i fun e ↦ { e with deadlineMs := nowMs + a.debounceMs }
        count_le := by simpa using a.count_le }, true)
  | none =>
    if a.count = a.items.length ∧ mem.realloc = false then (a, false)
    else if mem.strdup = false then
      -- the array has grown all the same
      ({ a with items := a.room, count_le := count_lt_room.le }, false)
    else
      ({ a with
          items := a.room.set a.count ⟨dir, nowMs + a.debounceMs⟩
          count := a.count + 1
          count_le := by
            rw [List.length_set]
            exact count_lt_room }, true)

/-- The loop of `dq_drain_due` over the array, with the state of the callback and the number of
drained entries. -/
def compact {σ : Type} (a : DqArray) (nowMs : Int) (cb : Path → σ → σ) (ud : σ) :
    Compact.State DqEntry (σ × Nat) :=
  Compact.sweep (fun e ↦ decide (e.deadlineMs ≤ nowMs))
    (fun e out ↦ (cb e.dir out.1, out.2 + 1)) a.items a.count (ud, 0)

/-- The pass over the array keeps the entries that are not due, and calls back for the others. -/
theorem compact_inv {σ : Type} (a : DqArray) (nowMs : Int) (cb : Path → σ → σ) (ud : σ) :
    Compact.Inv (fun e ↦ decide (e.deadlineMs ≤ nowMs))
      (fun e out ↦ (cb e.dir out.1, out.2 + 1)) a.items (ud, 0) a.count (a.compact nowMs cb ud) :=
  Compact.sweep_inv a.count_le

/-- `dq_drain_due`, `watch.c:153–174`, with the state of the callback and the number it returns. -/
def drainDue {σ : Type} (a : DqArray) (nowMs : Int) (cb : Path → σ → σ) (ud : σ) :
    DqArray × σ × Nat :=
  let s := a.compact nowMs cb ud
  ({ a with
      items := s.slots
      count := s.write
      count_le := by
        have h := a.compact_inv nowMs cb ud
        exact h.length ▸ h.write_le.trans a.count_le }, s.out)

/-- `dq_next_deadline_ms`, `watch.c:176–184`. -/
def nextDeadlineMs (a : DqArray) : Int :=
  a.live.foldl (fun least e ↦ if e.deadlineMs < least then e.deadlineMs else least) llongMax

end DqArray

/-! ### The array refines the queue -/

/-- The array holds the entries of the queue, in its order. -/
structure DqRefines (a : DqArray) (q : DebounceQueue) : Prop where
  live : a.live = q.items
  debounceMs : a.debounceMs = q.debounceMs

section Push

variable {dir : Path} {deadlineMs : Int} {items : List DqEntry}

/-- A directory that the search finds gets the new deadline in its place. -/
theorem pushEntry_of_found {i : Nat} (h : (items.findIdx? fun e ↦ e.dir = dir) = some i) :
    pushEntry dir deadlineMs items =
      items.modify i fun e ↦ { e with deadlineMs := deadlineMs } := by
  induction items generalizing i with
  | nil => simp at h
  | cons e es ih =>
    rw [List.findIdx?_cons] at h
    unfold pushEntry
    by_cases he : e.dir = dir
    · have hi : i = 0 := by simpa [he] using h.symm
      simp [he, hi]
    · obtain ⟨j, hj, rfl⟩ : ∃ j, (es.findIdx? fun e ↦ e.dir = dir) = some j ∧ j + 1 = i := by
        simpa [he] using h
      simp [he, ih hj]

/-- A directory that the search does not find is added behind the last entry. -/
theorem pushEntry_of_not_found (h : (items.findIdx? fun e ↦ e.dir = dir) = none) :
    pushEntry dir deadlineMs items = items ++ [⟨dir, deadlineMs⟩] := by
  induction items with
  | nil => rfl
  | cons e es ih =>
    have hall := List.findIdx?_eq_none_iff.mp h
    have he : e.dir ≠ dir := by simpa using hall e List.mem_cons_self
    have hes : (es.findIdx? fun e ↦ e.dir = dir) = none :=
      List.findIdx?_eq_none_iff.mpr fun x hx ↦ hall x (List.mem_cons_of_mem e hx)
    simp [pushEntry, he, ih hes]

/-- A directory that has an entry is found. -/
theorem findIdx?_isSome_iff_mem_dqDirs :
    (items.findIdx? fun e ↦ e.dir = dir).isSome ↔ dir ∈ dqDirs items := by
  rw [List.findIdx?_isSome, List.any_eq_true]
  simp [dqDirs]

end Push

namespace DqRefines

variable {a : DqArray} {q : DebounceQueue} {dir : Path} {nowMs : Int} {mem : DqMem}

/-- Both queues are empty at the start. -/
theorem init {debounceMs : Int} :
    DqRefines (DqArray.init debounceMs) (DebounceQueue.init debounceMs) :=
  ⟨rfl, rfl⟩

/-- A push that returns 0 is a push of the queue. -/
theorem push (h : DqRefines a q) (hok : (a.push dir nowMs mem).2 = true) :
    DqRefines (a.push dir nowMs mem).1 (q.push dir nowMs) := by
  unfold DqArray.push at hok ⊢
  cases hfound : a.live.findIdx? fun e ↦ e.dir = dir with
  | some i =>
    refine ⟨?_, h.debounceMs⟩
    show (a.items.modify i _).take a.count = pushEntry dir (nowMs + q.debounceMs) q.items
    rw [← h.live, ← h.debounceMs, pushEntry_of_found hfound, List.take_modify]
    rfl
  | none =>
    simp only [hfound] at hok ⊢
    split at hok
    · cases hok
    · next hroom =>
      rw [if_neg hroom]
      split at hok
      · cases hok
      · next hdup =>
        rw [if_neg hdup]
        refine ⟨?_, h.debounceMs⟩
        show (a.room.set a.count _).take (a.count + 1) =
          pushEntry dir (nowMs + q.debounceMs) q.items
        rw [← h.live, ← h.debounceMs, pushEntry_of_not_found hfound,
          List.take_succ_eq_append_getElem (by simpa using DqArray.count_lt_room),
          List.take_set_of_le (Nat.le_refl _), DqArray.take_room]
        simp

/-- A push that returns −1 leaves the entries as they are. -/
theorem push_refused (h : DqRefines a q) (hok : (a.push dir nowMs mem).2 = false) :
    DqRefines (a.push dir nowMs mem).1 q := by
  unfold DqArray.push at hok ⊢
  cases hfound : a.live.findIdx? fun e ↦ e.dir = dir with
  | some i => simp [hfound] at hok
  | none =>
    simp only [hfound] at hok ⊢
    split
    · exact h
    · split
      · exact ⟨DqArray.take_room.trans h.live, h.debounceMs⟩
      · next hroom hdup => simp [hroom, hdup] at hok

/-- Only a new directory is refused, and only when there is no memory. -/
theorem push_ok (h : DqRefines a q)
    (hmem : dir ∈ q.dirs ∨ mem.realloc = true ∧ mem.strdup = true) :
    (a.push dir nowMs mem).2 = true := by
  unfold DqArray.push
  cases hfound : a.live.findIdx? fun e ↦ e.dir = dir with
  | some i => rfl
  | none =>
    have hnew : dir ∉ q.dirs := by
      unfold DebounceQueue.dirs
      rw [← h.live, ← findIdx?_isSome_iff_mem_dqDirs, hfound]
      simp
    obtain ⟨hrealloc, hstrdup⟩ := hmem.resolve_left hnew
    simp [hrealloc, hstrdup]

section Drain

variable {σ : Type} (cb : Path → σ → σ) (ud : σ)

/-- The directories are called back in order, and counted. -/
theorem foldl_note (items : List DqEntry) (n : Nat) :
    items.foldl (fun out e ↦ (cb e.dir out.1, out.2 + 1)) (ud, n) =
      ((dqDirs items).foldl (fun ud d ↦ cb d ud) ud, n + items.length) := by
  induction items generalizing ud n with
  | nil => rfl
  | cons e es ih =>
    rw [List.foldl_cons, ih]
    simp [dqDirs, Nat.add_assoc, Nat.add_comm 1]

variable {cb ud}

/-- A drain of the array drains the queue. -/
theorem drainDue (h : DqRefines a q) :
    DqRefines (a.drainDue nowMs cb ud).1 (q.drainDue nowMs cb ud).1 ∧
      (a.drainDue nowMs cb ud).2 = (q.drainDue nowMs cb ud).2 := by
  have hinv := a.compact_inv nowMs cb ud
  have hq : q.items = a.items.take a.count := h.live.symm
  refine ⟨⟨?_, h.debounceMs⟩, ?_⟩
  · show (a.compact nowMs cb ud).slots.take (a.compact nowMs cb ud).write =
      (drainEntries nowMs cb q.items ud).1
    rw [hinv.kept, drainEntries_eq, hq]
  · show (a.compact nowMs cb ud).out = (drainEntries nowMs cb q.items ud).2
    rw [hinv.noted, drainEntries_eq, hq, foldl_note, Nat.zero_add]

end Drain

end DqRefines

/-! ### Runs -/

/-- A call on the queue. The sum of a push does not overflow: in C it would have no meaning. -/
inductive DqCall (debounceMs : Int) where
  | push (dir : Path) (nowMs : Int) (mem : DqMem) (fits : nowMs + debounceMs ≤ llongMax)
  | drain (nowMs : Int)

/-- A call that has returned, a push with 0 or with −1. -/
inductive DqEvent where
  | pushed (dir : Path) (nowMs : Int)
  | refused (dir : Path)
  | drained (nowMs : Int)
  deriving DecidableEq, Repr

/-- One call, and what has returned before it. -/
def dqStep {debounceMs : Int} (s : DqArray × List DqEvent) :
    DqCall debounceMs → DqArray × List DqEvent
  | .push dir nowMs mem _ =>
    let out := s.1.push dir nowMs mem
    (out.1, s.2 ++ [if out.2 then .pushed dir nowMs else .refused dir])
  | .drain nowMs => ((s.1.drainDue nowMs (fun _ ud ↦ ud) ()).1, s.2 ++ [.drained nowMs])

/-- The queue and the trace after the calls. -/
def dqRun (debounceMs : Int) (calls : List (DqCall debounceMs)) : DqArray × List DqEvent :=
  after dqStep (.init debounceMs, []) calls

/-- The last push of each directory that no drain has reported since: a push sets it, a drain takes
away what has waited for the interval. -/
def notePush (debounceMs : Int) (last : Path → Option Int) : DqEvent → Path → Option Int
  | .pushed dir nowMs => Function.update last dir (some nowMs)
  | .refused _ => last
  | .drained nowMs => fun d ↦ (last d).filter fun t ↦ nowMs < t + debounceMs

/-- The pushes that a trace leaves waiting. -/
def lastPush (debounceMs : Int) (trace : List DqEvent) : Path → Option Int :=
  trace.foldl (notePush debounceMs) fun _ ↦ none

/-- The queue holds what `last` says is waiting, and each call does with it what it is for. -/
structure DqCorrect (debounceMs : Int) (a : DqArray) (last : Path → Option Int) : Prop where
  one_entry : (dqDirs a.live).Nodup
  deadline : ∀ d t, ⟨d, t⟩ ∈ a.live ↔ ∃ nowMs, last d = some nowMs ∧ t = nowMs + debounceMs
  accepts : ∀ dir nowMs mem, dir ∈ dqDirs a.live ∨ mem.realloc = true ∧ mem.strdup = true →
    (a.push dir nowMs mem).2 = true
  reports : ∀ nowMs, ∃ reported : List Path, reported.Nodup ∧
    (∀ d, d ∈ reported ↔ ∃ t, last d = some t ∧ t + debounceMs ≤ nowMs) ∧
    ∀ (σ : Type) (cb : Path → σ → σ) (ud : σ),
      (a.drainDue nowMs cb ud).2 = (reported.foldl (fun ud d ↦ cb d ud) ud, reported.length)
  keeps : ∀ nowMs (σ : Type) (cb : Path → σ → σ) (ud : σ),
    (a.drainDue nowMs cb ud).1.live = a.live.filter fun e ↦ nowMs < e.deadlineMs
  next : a.live ≠ [] → IsLeast {t | ∃ d, ⟨d, t⟩ ∈ a.live} a.nextDeadlineMs
  next_empty : a.live = [] → a.nextDeadlineMs = llongMax

/-! ### What a queue waits for -/

section Waits

variable {a : DqArray} {q : DebounceQueue} {last : Path → Option Int} {dir : Path} {nowMs : Int}

/-- A push adds the entry in place of that of its directory. -/
theorem mem_pushEntry {deadlineMs : Int} {items : List DqEntry} {e : DqEntry}
    (h : (dqDirs items).Nodup) :
    e ∈ pushEntry dir deadlineMs items ↔ e = ⟨dir, deadlineMs⟩ ∨ e ∈ items ∧ e.dir ≠ dir := by
  induction items with
  | nil => simp [pushEntry]
  | cons x xs ih =>
    obtain ⟨hnew, hxs⟩ := List.nodup_cons.mp h
    unfold pushEntry
    split
    · next hx =>
      have hother : e ∈ xs → e.dir ≠ dir := by
        intro he heq
        apply hnew
        rw [hx, ← heq]
        exact List.mem_map_of_mem he
      simp only [List.mem_cons]
      grind
    · next hx =>
      simp only [List.mem_cons, ih hxs]
      grind

/-- The entries of the queue are the waiting pushes, each with its deadline, and no deadline is past
`LLONG_MAX`. -/
structure Waits (q : DebounceQueue) (last : Path → Option Int) : Prop where
  mem_iff : ∀ d t, ⟨d, t⟩ ∈ q.items ↔ ∃ nowMs, last d = some nowMs ∧ t = nowMs + q.debounceMs
  fits : ∀ e ∈ q.items, e.deadlineMs ≤ llongMax

/-- At the start nothing waits. -/
theorem Waits.init {debounceMs : Int} : Waits (.init debounceMs) fun _ ↦ none :=
  ⟨fun d t ↦ by simp [DebounceQueue.init], fun e he ↦ by simp [DebounceQueue.init] at he⟩

/-- A push makes its directory wait. -/
theorem Waits.push (h : Waits q last) (hfits : nowMs + q.debounceMs ≤ llongMax) :
    Waits (q.push dir nowMs) (notePush q.debounceMs last (.pushed dir nowMs)) := by
  have hmem : ∀ e, e ∈ (q.push dir nowMs).items ↔
      e = ⟨dir, nowMs + q.debounceMs⟩ ∨ e ∈ q.items ∧ e.dir ≠ dir := fun e ↦ mem_pushEntry q.nodup
  constructor
  · intro d t
    rw [hmem, h.mem_iff]
    unfold notePush
    by_cases hd : d = dir
    · subst hd
      simp [DebounceQueue.push]
    · simp [hd, DebounceQueue.push]
  · intro e he
    cases (hmem e).mp he with
    | inl hnew => exact hnew ▸ hfits
    | inr hold => exact h.fits e hold.1

/-- Behind a drain those wait that were not due. -/
theorem Waits.drain {σ : Type} {cb : Path → σ → σ} {ud : σ} (h : Waits q last) :
    Waits (q.drainDue nowMs cb ud).1 (notePush q.debounceMs last (.drained nowMs)) := by
  have hitems : (q.drainDue nowMs cb ud).1.items =
      q.items.filter fun e ↦ !decide (e.deadlineMs ≤ nowMs) := by
    show (drainEntries nowMs cb q.items ud).1 = _
    rw [drainEntries_eq]
  constructor
  · intro d t
    rw [hitems, List.mem_filter, h.mem_iff]
    unfold notePush
    simp only [Option.filter_eq_some_iff, Bool.not_eq_true', decide_eq_false_iff_not,
      decide_eq_true_eq]
    constructor
    · rintro ⟨⟨s, hs, rfl⟩, hlate⟩
      exact ⟨s, ⟨hs, not_le.mp hlate⟩, rfl⟩
    · rintro ⟨s, ⟨hs, hlate⟩, rfl⟩
      exact ⟨⟨s, hs, rfl⟩, not_le.mpr hlate⟩
  · intro e he
    rw [hitems, List.mem_filter] at he
    exact h.fits e he.1

end Waits

/-! ### The next deadline -/

section Least

variable {items : List DqEntry} {start : Int}

/-- The loop of `dq_next_deadline_ms` comes below its start and every deadline, and is one of them.
-/
theorem foldl_least :
    let least := items.foldl
      (fun least e ↦ if e.deadlineMs < least then e.deadlineMs else least) start
    least ≤ start ∧ (∀ e ∈ items, least ≤ e.deadlineMs) ∧
      (least = start ∨ ∃ e ∈ items, least = e.deadlineMs) := by
  induction items generalizing start with
  | nil => simp
  | cons e es ih =>
    obtain ⟨hstart, hle, hmem⟩ := @ih (if e.deadlineMs < start then e.deadlineMs else start)
    have hmin : (if e.deadlineMs < start then e.deadlineMs else start) ≤ e.deadlineMs ∧
        (if e.deadlineMs < start then e.deadlineMs else start) ≤ start := by
      split <;> omega
    refine ⟨hstart.trans hmin.2, ?_, ?_⟩
    · intro x hx
      cases List.mem_cons.mp hx with
      | inl hxe => exact hxe ▸ hstart.trans hmin.1
      | inr hxs => exact hle x hxs
    · cases hmem with
      | inl hs =>
        rw [List.foldl_cons, hs]
        split
        · exact Or.inr ⟨e, List.mem_cons_self, rfl⟩
        · exact Or.inl rfl
      | inr hx =>
        obtain ⟨x, hx, hle⟩ := hx
        exact Or.inr ⟨x, List.mem_cons_of_mem e hx, hle⟩

/-- It is the least deadline, where no deadline is past its start. -/
theorem isLeast_foldl (hne : items ≠ []) (hfits : ∀ e ∈ items, e.deadlineMs ≤ start) :
    IsLeast {t | ∃ d, ⟨d, t⟩ ∈ items} (items.foldl
      (fun least e ↦ if e.deadlineMs < least then e.deadlineMs else least) start) := by
  obtain ⟨-, hle, hmem⟩ := @foldl_least items start
  constructor
  · cases hmem with
    | inl hs =>
      obtain ⟨e, he⟩ := List.exists_mem_of_ne_nil items hne
      have heq : e.deadlineMs = start := le_antisymm (hfits e he) (hs ▸ hle e he)
      exact ⟨e.dir, by rw [hs, ← heq]; exact he⟩
    | inr hx =>
      obtain ⟨x, hx, heq⟩ := hx
      exact ⟨x.dir, by rw [heq]; exact hx⟩
  · rintro t ⟨d, hd⟩
    exact hle ⟨d, t⟩ hd

end Least

/-! ### Every run -/

/-- The array refines a queue of the pushes that are waiting. -/
def DqStands (debounceMs : Int) (a : DqArray) (last : Path → Option Int) : Prop :=
  ∃ q : DebounceQueue, q.debounceMs = debounceMs ∧ DqRefines a q ∧ Waits q last

section Runs

variable {debounceMs : Int} {a : DqArray} {last : Path → Option Int}

/-- What stands of the queue says that it is correct. -/
theorem dqCorrect_of_dqStands (h : DqStands debounceMs a last) : DqCorrect debounceMs a last := by
  obtain ⟨q, rfl, hrefines, hwaits⟩ := h
  have hdirs : dqDirs a.live = q.dirs := congrArg dqDirs hrefines.live
  refine ⟨hdirs ▸ q.nodup, ?_, ?_, ?_, ?_, ?_, ?_⟩
  · intro d t
    rw [hrefines.live]
    exact hwaits.mem_iff d t
  · intro dir nowMs mem hmem
    exact hrefines.push_ok (hdirs ▸ hmem)
  · intro nowMs
    refine ⟨q.due nowMs, q.nodup.sublist (List.Sublist.map _ List.filter_sublist), ?_, ?_⟩
    · intro d
      unfold DebounceQueue.due dqDirs
      simp only [List.mem_map, List.mem_filter, decide_eq_true_eq]
      constructor
      · rintro ⟨e, ⟨he, hdue⟩, rfl⟩
        obtain ⟨t, ht, heq⟩ := (hwaits.mem_iff e.dir e.deadlineMs).mp he
        exact ⟨t, ht, heq ▸ hdue⟩
      · rintro ⟨t, ht, hdue⟩
        exact ⟨⟨d, t + q.debounceMs⟩, ⟨(hwaits.mem_iff d _).mpr ⟨t, ht, rfl⟩, hdue⟩, rfl⟩
    · intro σ cb ud
      rw [hrefines.drainDue.2]
      show (drainEntries nowMs cb q.items ud).2 = _
      rw [drainEntries_eq]
      simp [DebounceQueue.due, dqDirs]
  · intro nowMs σ cb ud
    rw [hrefines.drainDue.1.live, hrefines.live]
    show (drainEntries nowMs cb q.items ud).1 = _
    rw [drainEntries_eq]
    apply List.filter_congr
    intro e _
    rw [← decide_not, decide_eq_decide, not_le]
  · intro hne
    apply isLeast_foldl hne
    intro e he
    exact hwaits.fits e (hrefines.live ▸ he)
  · intro hempty
    unfold DqArray.nextDeadlineMs
    rw [hempty]
    rfl

/-- One call keeps the queue and the waiting pushes together. -/
theorem dqStands_step {trace : List DqEvent} (call : DqCall debounceMs)
    (h : DqStands debounceMs a (lastPush debounceMs trace)) :
    DqStands debounceMs (dqStep (a, trace) call).1
      (lastPush debounceMs (dqStep (a, trace) call).2) := by
  obtain ⟨q, rfl, hrefines, hwaits⟩ := h
  have hlast : ∀ event, lastPush q.debounceMs (trace ++ [event]) =
      notePush q.debounceMs (lastPush q.debounceMs trace) event := by
    intro event
    unfold lastPush
    rw [List.foldl_append]
    rfl
  cases call with
  | push dir nowMs mem fits =>
    unfold dqStep
    simp only [hlast]
    cases hok : (a.push dir nowMs mem).2 with
    | true => exact ⟨q.push dir nowMs, rfl, hrefines.push hok, hwaits.push fits⟩
    | false => exact ⟨q, rfl, hrefines.push_refused hok, hwaits⟩
  | drain nowMs =>
    unfold dqStep
    simp only [hlast]
    exact ⟨(q.drainDue nowMs (fun _ ud ↦ ud) ()).1, rfl, hrefines.drainDue.1, hwaits.drain⟩

/-- After any calls the queue holds one entry for each directory with a waiting push, a drain
reports the due ones once and keeps the others, and the next deadline is the least. -/
theorem dqRun_correct (debounceMs : Int) (calls : List (DqCall debounceMs)) :
    DqCorrect debounceMs (dqRun debounceMs calls).1
      (lastPush debounceMs (dqRun debounceMs calls).2) := by
  apply dqCorrect_of_dqStands
  unfold dqRun
  have hstart : DqStands debounceMs (.init debounceMs) (lastPush debounceMs []) :=
    ⟨.init debounceMs, rfl, DqRefines.init, Waits.init⟩
  generalize DqArray.init debounceMs = a at hstart ⊢
  generalize ([] : List DqEvent) = trace at hstart ⊢
  induction calls generalizing a trace with
  | nil => exact hstart
  | cons call calls ih => exact ih _ _ (dqStands_step call hstart)

end Runs

end Nocturne
