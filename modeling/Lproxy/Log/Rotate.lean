import Lproxy.Packet
import Lproxy.Lib.Transition
import Mathlib.Data.List.Nodup

-- The rotation of log files. The C++ part decides when a file is rotated, and the Python part makes
-- the archive.
namespace Lproxy.Log.Rotate

open Function (update)

-- An element of `logm`: a stream, the name of its file, and the size from which on it is rotated.
structure Entry where
  os : Nat
  filename : String
  maxsize : Int
  deriving DecidableEq

-- A `Logrotate` with what it works upon. `buffer` is what has been written to a stream but not yet
-- to its file, `failed` the `failbit` of a stream, and `written` all that has been written to it
-- since it was bound.
structure System where
  logm : List Entry
  disk : String → Option Data
  buffer : Nat → Data
  failed : Nat → Bool
  -- The names of the archives of a file, in the order in which they were made.
  archives : String → List String
  written : Nat → Data

namespace System

def fresh (disk : String → Option Data) : System where
  logm := []
  disk := disk
  buffer _ := []
  failed _ := false
  archives _ := []
  written _ := []

variable (s : System)

def contents (name : String) : Data :=
  (s.disk name).getD []

-- `open` with `app`, which makes the file if there is none, and with `trunc`. A stream that has
-- been opened is good.
def openApp (os : Nat) (filename : String) : System :=
  { s with
    disk := update s.disk filename (some (s.contents filename))
    failed := update s.failed os false }

def openTrunc (os : Nat) (filename : String) : System :=
  { s with
    disk := update s.disk filename (some [])
    failed := update s.failed os false }

def close (os : Nat) (filename : String) : System :=
  { s with
    disk := update s.disk filename (some (s.contents filename ++ s.buffer os))
    buffer := update s.buffer os [] }

-- The output of `d` to a stream, which takes nothing if it has failed, and the move of the first
-- `n` bytes of its buffer to the file.
def write (os : Nat) (d : Data) : System :=
  { s with
    buffer := if s.failed os then s.buffer else update s.buffer os (s.buffer os ++ d)
    written := update s.written os (s.written os ++ d) }

def flush (e : Entry) (n : Nat) : System :=
  { s with
    disk := update s.disk e.filename (some (s.contents e.filename ++ (s.buffer e.os).take n))
    buffer := update s.buffer e.os ((s.buffer e.os).drop n) }

-- A stream that is open already is not bound, and fails.
def bind (e : Entry) : System × Bool :=
  if e.os ∈ s.logm.map Entry.os then ({ s with failed := update s.failed e.os true }, false)
  else ({ s.openApp e.os e.filename with logm := s.logm ++ [e] }, true)

-- What `action` does when the archive has been made.
def restart (e : Entry) : System :=
  (((s.close e.os e.filename).openTrunc e.os e.filename).close e.os e.filename).openApp e.os
    e.filename

end System

-- The names that `read_txt_write_gz` tries for an archive, one after the other.
def archiveName (gzpath : String) : Nat → String
  | 0 => gzpath ++ ".gz"
  | i => gzpath ++ (if i < 10 then "_0" else "_") ++ toString i ++ ".gz"

-- A call of `logrotate` that succeeds: the file is copied to the first name that is free. In the
-- name is the time of the call.
inductive Rotates (s : System) (filename : String) : System → Prop
  | intro {timeStr : String} {i : Nat} {d : Data} (h : s.disk filename = some d)
    (free : s.disk (archiveName (filename ++ "." ++ timeStr) i) = none)
    (taken : ∀ j < i, s.disk (archiveName (filename ++ "." ++ timeStr) j) ≠ none) :
    Rotates s filename { s with
      disk := update s.disk (archiveName (filename ++ "." ++ timeStr) i) (some d)
      archives := update s.archives filename
        (s.archives filename ++ [archiveName (filename ++ "." ++ timeStr) i]) }

-- The loop of `action`, for the positions that the streams report.
inductive Acts (tellp : Nat → Int) : List Entry → System → System → Prop
  | nil {s : System} : Acts tellp [] s s
  | keep {e : Entry} {es : List Entry} {s t : System} (h : tellp e.os < e.maxsize)
    (r : Acts tellp es s t) : Acts tellp (e :: es) s t
  | rotate {e : Entry} {es : List Entry} {s t u : System} (h : e.maxsize ≤ tellp e.os)
    (hr : Rotates s e.filename t) (r : Acts tellp es (t.restart e) u) : Acts tellp (e :: es) s u

inductive Label
  | write (os : Nat) (d : Data)
  | flush (os n : Nat)
  | action (tellp : Nat → Int)

inductive Step : System → Label → System → Prop
  | write {s : System} {e : Entry} (h : e ∈ s.logm) (d : Data) :
    Step s (.write e.os d) (s.write e.os d)
  | flush {s : System} {e : Entry} (h : e ∈ s.logm) (n : Nat) :
    Step s (.flush e.os n) (s.flush e n)
  | action {s t : System} {tellp : Nat → Int} (h : Acts tellp s.logm s t) :
    Step s (.action tellp) t

-- What there is of a log: its archives, its file and the buffer of its stream.
def System.archived (s : System) (filename : String) : Data :=
  (s.archives filename).flatMap s.contents

def System.held (s : System) (e : Entry) : Data :=
  s.archived e.filename ++ s.contents e.filename ++ s.buffer e.os

-- No byte of any log has been lost, where `disk` is how the files were when they were bound.
def Intact (disk : String → Option Data) (s : System) : Prop :=
  ∀ e ∈ s.logm, s.held e = (disk e.filename).getD [] ++ s.written e.os

-- Every stream that the call rotates has been flushed before.
def Flushed (s : System) : Label → Prop
  | .action tellp => ∀ e ∈ s.logm, e.maxsize ≤ tellp e.os → s.buffer e.os = []
  | _             => True

-- The streams are bound one after the other.
def bound (disk : String → Option Data) (entries : List Entry) : System :=
  entries.foldl (fun s e => (s.bind e).1) (.fresh disk)

-- The streams are good and have different files. All files exist, and no archive is a log file.
structure Sound (s : System) : Prop where
  nodup : s.logm.Nodup
  streams : ∀ e ∈ s.logm, ∀ e' ∈ s.logm, e.os = e'.os → e = e'
  files : ∀ e ∈ s.logm, ∀ e' ∈ s.logm, e.filename = e'.filename → e = e'
  file : ∀ e ∈ s.logm, s.disk e.filename ≠ none
  good : ∀ e ∈ s.logm, s.failed e.os = false
  archive : ∀ f, ∀ n ∈ s.archives f, s.disk n ≠ none ∧ ∀ e ∈ s.logm, n ≠ e.filename

-- A log is the same in two systems; or it has been cut off, with its file in an archive and without
-- what was in the buffer of its stream.
structure Same (s t : System) (e : Entry) : Prop where
  archived : t.archived e.filename = s.archived e.filename
  contents : t.contents e.filename = s.contents e.filename
  buffer : t.buffer e.os = s.buffer e.os

structure Cut (s t : System) (e : Entry) : Prop where
  archived : t.archived e.filename = s.archived e.filename ++ s.contents e.filename
  contents : t.contents e.filename = []
  buffer : t.buffer e.os = []

section

variable {disk : String → Option Data} {s t u : System} {e e' : Entry} {es : List Entry}
  {tellp : Nat → Int} {l : Label}

theorem Same.refl : Same s s e :=
  ⟨rfl, rfl, rfl⟩

theorem Same.trans (h : Same s t e) (h' : Same t u e) : Same s u e where
  archived := h'.archived.trans h.archived
  contents := h'.contents.trans h.contents
  buffer   := h'.buffer.trans h.buffer

theorem Same.cut (h : Same s t e) (h' : Cut t u e) : Cut s u e where
  archived := by rw [h'.archived, h.archived, h.contents]
  contents := h'.contents
  buffer   := h'.buffer

theorem Cut.same (h : Cut s t e) (h' : Same t u e) : Cut s u e where
  archived := h'.archived.trans h.archived
  contents := h'.contents.trans h.contents
  buffer   := h'.buffer.trans h.buffer

theorem Same.held (h : Same s t e) : t.held e = s.held e := by
  rw [System.held, System.held, h.archived, h.contents, h.buffer]

-- What is lost of a log that is cut off is what was in the buffer.
theorem Cut.held (h : Cut s t e) : s.held e = t.held e ++ s.buffer e.os := by
  simp [System.held, h.archived, h.contents, h.buffer]

-- Archives that have not been written to hold what they held.
theorem archived_congr {f : String} (ha : t.archives f = s.archives f)
    (hd : ∀ n ∈ s.archives f, t.contents n = s.contents n) : t.archived f = s.archived f := by
  rw [System.archived, System.archived, ha]
  exact List.flatMap_congr hd

-- A log file is copied to an archive, and emptied with the buffer of its stream.
def System.cut (s : System) (e : Entry) (name : String) : System :=
  { s with
    disk := update (update s.disk name (some (s.contents e.filename))) e.filename (some [])
    buffer := update s.buffer e.os []
    failed := update s.failed e.os false
    archives := update s.archives e.filename (s.archives e.filename ++ [name]) }

theorem Rotates.restart_eq (h : Rotates s e.filename t) :
    ∃ name, s.disk name = none ∧ t.restart e = s.cut e name := by
  cases h
  case intro h free taken =>
    refine ⟨_, free, ?_⟩
    simp [System.restart, System.close, System.openTrunc, System.openApp, System.contents,
      System.cut, h]

section Cut

variable {name : String} (i : Sound s) (he : e ∈ s.logm) (hn : s.disk name = none)

-- What is there is not the new archive, unless it is the new archive.
theorem ne_of_exists {n : String} (hn : s.disk name = none) (h : s.disk n ≠ none) : n ≠ name :=
  fun he => h (he ▸ hn)

include i he hn in
theorem cut_sound : Sound (s.cut e name) where
  nodup := i.nodup
  streams := i.streams
  files := i.files
  file e' he' := by
    by_cases hf : e'.filename = e.filename
    case pos => simp [System.cut, hf]
    case neg =>
      simpa [System.cut, hf, ne_of_exists hn (i.file e' he')] using i.file e' he'
  good e' he' := by
    by_cases ho : e'.os = e.os <;> simp [System.cut, ho, i.good e' he']
  archive f n hm := by
    have hm : n ∈ s.archives f ∨ n = name := by
      by_cases hf : f = e.filename
      case pos => simpa [System.cut, hf] using hm
      case neg => exact .inl (by simpa [System.cut, hf] using hm)
    cases hm
    case inl hm =>
      have ⟨hd, ha⟩ := i.archive f n hm
      exact ⟨by simpa [System.cut, ha e he, ne_of_exists hn hd] using hd, ha⟩
    case inr hm =>
      have hne (e' : Entry) (he' : e' ∈ s.logm) : n ≠ e'.filename :=
        hm ▸ (ne_of_exists hn (i.file e' he')).symm
      exact ⟨by simp [System.cut, hm, hm ▸ hne e he], hne⟩

include i he hn in
theorem contents_cut {f n : String} (hm : n ∈ s.archives f) :
    (s.cut e name).contents n = s.contents n := by
  have ⟨hd, ha⟩ := i.archive f n hm
  simp [System.cut, System.contents, ha e he, ne_of_exists hn hd]

include i he hn in
theorem cut_cut : Cut s (s.cut e name) e where
  contents := by simp [System.cut, System.contents]
  buffer := by simp [System.cut]
  archived := by
    have hne : name ≠ e.filename := (ne_of_exists hn (i.file e he)).symm
    have ha : (s.cut e name).archives e.filename = s.archives e.filename ++ [name] := by
      simp [System.cut]
    have hc : (s.cut e name).contents name = s.contents e.filename := by
      simp [System.cut, System.contents, hne]
    rw [System.archived, ha, List.flatMap_append, List.flatMap_singleton, hc]
    congr 1
    exact List.flatMap_congr fun n hm => contents_cut i he hn hm

include i he hn in
theorem cut_same (he' : e' ∈ s.logm) (hne : e' ≠ e) : Same s (s.cut e name) e' := by
  have hf : e'.filename ≠ e.filename := fun h => hne (i.files e' he' e he h)
  have ho : e'.os ≠ e.os := fun h => hne (i.streams e' he' e he h)
  constructor
  case archived =>
    exact archived_congr (by simp [System.cut, hf]) fun n hm => contents_cut i he hn hm
  case contents =>
    simp [System.cut, System.contents, hf, ne_of_exists hn (i.file e' he')]
  case buffer => simp [System.cut, ho]

end Cut

-- The loop cuts off the logs of the streams that have reached their size, each of them once.
structure Acted (tellp : Nat → Int) (es : List Entry) (s t : System) : Prop where
  logm : t.logm = s.logm
  written : t.written = s.written
  sound : Sound t
  cut : ∀ e ∈ es, e.maxsize ≤ tellp e.os → Cut s t e
  same : ∀ e ∈ s.logm, (e ∈ es → tellp e.os < e.maxsize) → Same s t e

theorem Acts.acted (h : Acts tellp es s t) (i : Sound s) (hs : ∀ e ∈ es, e ∈ s.logm)
    (hn : es.Nodup) : Acted tellp es s t := by
  induction h
  case nil => exact ⟨rfl, rfl, i, nofun, fun _ _ _ => .refl⟩
  case keep e es s t hlt r hi =>
    have ⟨he, hn⟩ := List.nodup_cons.mp hn
    have h := hi i (fun e' he' => hs e' (List.mem_cons_of_mem _ he')) hn
    refine ⟨h.logm, h.written, h.sound, ?_, ?_⟩
    case refine_1 =>
      intro e' hm hle
      cases hm
      case head    => omega
      case tail hm => exact h.cut e' hm hle
    case refine_2 =>
      intro e' he' hm
      exact h.same e' he' fun hm' => hm (List.mem_cons_of_mem _ hm')
  case rotate e es s t u hle hr r hi =>
    have ⟨he, hn⟩ := List.nodup_cons.mp hn
    have hm := hs e (List.mem_cons_self ..)
    have ⟨name, hname, heq⟩ := hr.restart_eq
    rw [heq] at hi
    have h := hi (cut_sound i hm hname) (fun e' he' => hs e' (List.mem_cons_of_mem _ he')) hn
    refine ⟨h.logm, h.written, h.sound, ?_, ?_⟩
    case refine_1 =>
      intro e' hm' hle'
      cases hm'
      case head     => exact (cut_cut i hm hname).same (h.same e hm fun h' => absurd h' he)
      case tail hm' =>
        have hne : e' ≠ e := fun heq => he (heq ▸ hm')
        exact (cut_same i hm hname (hs e' (List.mem_cons_of_mem _ hm')) hne).cut (h.cut e' hm' hle')
    case refine_2 =>
      intro e' he' hlt
      have hne : e' ≠ e := by
        intro heq
        have := hlt (heq ▸ List.mem_cons_self ..)
        rw [heq] at this
        omega
      exact (cut_same i hm hname he' hne).trans
        (h.same e' he' fun hm' => hlt (List.mem_cons_of_mem _ hm'))

section Flush

variable {n : Nat} (i : Sound s) (he : e ∈ s.logm)

include i he in
theorem flush_sound : Sound (s.flush e n) where
  nodup := i.nodup
  streams := i.streams
  files := i.files
  file e' he' := by
    by_cases hf : e'.filename = e.filename
    case pos => simp [System.flush, hf]
    case neg => simpa [System.flush, hf] using i.file e' he'
  good := i.good
  archive f name hm := by
    have ⟨hd, ha⟩ := i.archive f name hm
    exact ⟨by simpa [System.flush, ha e he] using hd, ha⟩

include i he in
theorem archived_flush {f : String} : (s.flush e n).archived f = s.archived f := by
  refine archived_congr (t := s.flush e n) rfl fun name hm => ?_
  simp [System.flush, System.contents, (i.archive f name hm).2 e he]

include i he in
theorem flush_same (he' : e' ∈ s.logm) (hne : e' ≠ e) : Same s (s.flush e n) e' := by
  have hf : e'.filename ≠ e.filename := fun h => hne (i.files e' he' e he h)
  have ho : e'.os ≠ e.os := fun h => hne (i.streams e' he' e he h)
  constructor
  case archived => exact archived_flush i he
  case contents => simp [System.flush, System.contents, hf]
  case buffer   => simp [System.flush, ho]

include i he in
theorem held_flush : (s.flush e n).held e = s.held e := by
  have hc : (s.flush e n).contents e.filename =
      s.contents e.filename ++ (s.buffer e.os).take n := by
    simp [System.flush, System.contents]
  have hb : (s.flush e n).buffer e.os = (s.buffer e.os).drop n := by
    simp [System.flush]
  rw [System.held, System.held, archived_flush i he, hc, hb]
  simp

end Flush

theorem held_write {os : Nat} {d : Data} (h : s.failed os = false) :
    (s.write os d).held e = s.held e ++ if e.os = os then d else [] := by
  have ha : (s.write os d).archived e.filename = s.archived e.filename := rfl
  have hc : (s.write os d).contents e.filename = s.contents e.filename := rfl
  rw [System.held, System.held, ha, hc]
  by_cases ho : e.os = os <;> simp [System.write, h, ho]

theorem written_write {os : Nat} {d : Data} :
    (s.write os d).written e.os = s.written e.os ++ if e.os = os then d else [] := by
  by_cases ho : e.os = os <;> simp [System.write, ho]

theorem Step.sound (h : Step s l t) (i : Sound s) : Sound t ∧ t.logm = s.logm := by
  cases h
  case write       => exact ⟨⟨i.nodup, i.streams, i.files, i.file, i.good, i.archive⟩, rfl⟩
  case flush he n  => exact ⟨flush_sound i he, rfl⟩
  case action h    =>
    have h := h.acted i (fun _ he => he) i.nodup
    exact ⟨h.sound, h.logm⟩

-- A call keeps every log, unless it rotates a stream that has not been flushed.
theorem Step.intact_iff (h : Step s l t) (i : Sound s) (hi : Intact disk s) :
    Intact disk t ↔ Flushed s l := by
  cases h
  case write e he d =>
    refine iff_of_true ?_ trivial
    intro e' he'
    rw [held_write (i.good e he), written_write, hi e' he', List.append_assoc]
  case flush e he n =>
    refine iff_of_true ?_ trivial
    intro e' he'
    have hw : (s.flush e n).written = s.written := rfl
    rw [hw, ← hi e' he']
    by_cases heq : e' = e
    case pos => rw [heq, held_flush i he]
    case neg => exact (flush_same i he he' heq).held
  case action tellp h =>
    have h := h.acted i (fun _ he => he) i.nodup
    constructor
    case mp =>
      intro ht e he hle
      have hc := (h.cut e he hle).held
      rw [hi e he, ← h.written, ← ht e (h.logm ▸ he)] at hc
      simpa using hc
    case mpr =>
      intro hf e he
      have he : e ∈ s.logm := h.logm ▸ he
      rw [h.written, ← hi e he]
      by_cases hle : e.maxsize ≤ tellp e.os
      case pos => rw [(h.cut e he hle).held, hf e he hle, List.append_nil]
      case neg => exact (h.same e he fun _ => by omega).held

-- What binding some streams gives.
structure Bound (disk : String → Option Data) (es : List Entry) (s : System) : Prop where
  logm : s.logm = es
  contents : ∀ name, s.contents name = (disk name).getD []
  file : ∀ e ∈ es, s.disk e.filename ≠ none
  buffer : ∀ os, s.buffer os = []
  failed : ∀ os, s.failed os = false
  archives : ∀ f, s.archives f = []
  written : ∀ os, s.written os = []

theorem Bound.bind (b : Bound disk es s) (h : e.os ∉ es.map Entry.os) :
    Bound disk (es ++ [e]) (s.bind e).1 := by
  have hc (name : String) : (s.openApp e.os e.filename).contents name = s.contents name := by
    by_cases hn : name = e.filename <;> simp [System.openApp, System.contents, hn]
  have hg (os : Nat) : (s.openApp e.os e.filename).failed os = false := by
    by_cases ho : os = e.os <;> simp [System.openApp, ho, b.failed os]
  rw [System.bind, b.logm, if_neg h]
  refine ⟨rfl, fun name => (hc name).trans (b.contents name), ?_, b.buffer, hg, b.archives,
    b.written⟩
  intro e' he'
  by_cases hf : e'.filename = e.filename
  case pos => simp [System.openApp, hf]
  case neg =>
    have he' : e' ∈ es := by
      cases List.mem_append.mp he'
      case inl h => exact h
      case inr h => exact absurd (congrArg Entry.filename (List.mem_singleton.mp h)) hf
    simpa [System.openApp, hf] using b.file e' he'

theorem Bound.bound_foldl {es' : List Entry} (b : Bound disk es s)
    (h : ((es ++ es').map Entry.os).Nodup) :
    Bound disk (es ++ es') (es'.foldl (fun s e => (s.bind e).1) s) := by
  induction es' generalizing es s
  case nil          => simpa using b
  case cons e es' hi =>
    have hn : e.os ∉ es.map Entry.os := by
      intro hm
      rw [List.map_append, List.map_cons] at h
      exact (List.nodup_append.mp h).2.2 _ hm _ (List.mem_cons_self ..) rfl
    have hi := hi (b.bind hn) (by simpa using h)
    simpa using hi

variable {entries : List Entry}

theorem bound_spec (h : (entries.map Entry.os).Nodup) :
    Bound disk entries (bound disk entries) := by
  have b : Bound disk [] (bound disk []) :=
    ⟨rfl, fun _ => rfl, nofun, fun _ => rfl, fun _ => rfl, fun _ => rfl, fun _ => rfl⟩
  exact b.bound_foldl h

theorem Bound.sound (b : Bound disk entries s) (hs : (entries.map Entry.os).Nodup)
    (hf : (entries.map Entry.filename).Nodup) : Sound s where
  nodup := b.logm ▸ hs.of_map
  streams e he e' he' := List.inj_on_of_nodup_map hs (b.logm ▸ he) (b.logm ▸ he')
  files e he e' he' := List.inj_on_of_nodup_map hf (b.logm ▸ he) (b.logm ▸ he')
  file e he := b.file e (b.logm ▸ he)
  good e _ := b.failed e.os
  archive f n hn := by
    rw [b.archives] at hn
    cases hn

theorem Bound.intact (b : Bound disk entries s) : Intact disk s := by
  intro e _
  simp [System.held, System.archived, b.archives, b.contents, b.buffer, b.written]

variable {tr : List (System × Label)}

theorem sound_of_run (r : Transition.Run Step s tr t) (i : Sound s) : Sound t := by
  induction r
  case nil       => exact i
  case snoc e hi => exact (e.sound hi).1

theorem intact_iff_of_run (r : Transition.Run Step s tr t) (i : Sound s) (h : Intact disk s) :
    (∀ p ∈ tr, Intact disk p.1) ∧ Intact disk t ↔ ∀ p ∈ tr, Flushed p.1 p.2 := by
  induction r
  case nil         => exact ⟨fun _ => nofun, fun _ => ⟨nofun, h⟩⟩
  case snoc r e hi =>
    have hst : Intact disk _ → _ := e.intact_iff (sound_of_run r i)
    simp only [List.forall_mem_append, List.forall_mem_singleton]
    constructor
    case mp =>
      intro ⟨⟨htr, ht⟩, hu⟩
      exact ⟨hi.mp ⟨htr, ht⟩, (hst ht).mp hu⟩
    case mpr =>
      intro ⟨htr, hl⟩
      have ⟨htr, ht⟩ := hi.mpr htr
      exact ⟨⟨htr, ht⟩, (hst ht).mpr hl⟩

-- In a run upon streams that are bound to distinct files, no byte is ever lost if and only if every
-- stream has been flushed whenever it is rotated.
theorem intact_iff_flushed
    (hs : (entries.map Entry.os).Nodup) (hf : (entries.map Entry.filename).Nodup)
    (r : Transition.Run Step (bound disk entries) tr t) :
    (∀ p ∈ tr, Intact disk p.1) ∧ Intact disk t ↔ ∀ p ∈ tr, Flushed p.1 p.2 :=
  intact_iff_of_run r ((bound_spec hs).sound hs hf) (bound_spec hs).intact

-- A stream for a new file, which is rotated from the first byte on.
def sampleEntry : Entry where
  os := 0
  filename := "a.log"
  maxsize := 1

-- A byte has been written.
def sampleWritten : System :=
  (bound (fun _ => none) [sampleEntry]).write 0 [65]

theorem sampleWritten_run : Transition.Run Step (bound (fun _ => none) [sampleEntry])
    [(bound (fun _ => none) [sampleEntry], .write 0 [65])] sampleWritten :=
  Transition.Run.nil.snoc (@Step.write _ sampleEntry (.head _) [65])

def sampleFlushed : System :=
  sampleWritten.flush sampleEntry 1

def sampleTrace : List (System × Label) :=
  [(bound (fun _ => none) [sampleEntry], .write 0 [65]), (sampleWritten, .flush 0 1),
    (sampleFlushed, .action fun _ => 1)]

-- The byte is flushed before the stream is rotated.
theorem intact_iff_flushed_sample :
    ∃ t, Transition.Run Step (bound (fun _ => none) [sampleEntry]) sampleTrace t ∧
      (∀ p ∈ sampleTrace, Intact (fun _ => none) p.1) ∧ Intact (fun _ => none) t := by
  have hr : Rotates sampleFlushed "a.log" _ :=
    @Rotates.intro sampleFlushed "a.log" "2016-01-01_00-00-00" 0 [65] (by decide) (by decide) nofun
  have e : Step sampleFlushed (.action fun _ => 1) _ :=
    .action (.rotate (Int.le_refl 1) hr .nil)
  have r := (sampleWritten_run.snoc (@Step.flush _ sampleEntry (.head _) 1)).snoc e
  refine ⟨_, r, (intact_iff_flushed (by decide) (by decide) r).mpr ?_⟩
  simp [Flushed, sampleWritten, System.flush, System.write, bound, System.bind,
    System.fresh, System.openApp, sampleEntry]

theorem sampleWritten_rotates : ∃ t, Rotates sampleWritten "a.log" t :=
  ⟨_, @Rotates.intro sampleWritten "a.log" "2016-01-01_00-00-00" 0 [] (by decide) (by decide)
    nofun⟩

-- The stream is rotated, since it reports the byte, which is in its buffer still.
theorem not_intact_unflushed : ¬∀ (disk : String → Option Data) (entries : List Entry)
    (tr : List (System × Label)) (t : System), (entries.map Entry.os).Nodup →
    (entries.map Entry.filename).Nodup → Transition.Run Step (bound disk entries) tr t →
    Intact disk t := by
  intro h
  have ⟨t, ht⟩ := sampleWritten_rotates
  have e : Step sampleWritten (.action fun _ => 1) (t.restart sampleEntry) :=
    .action (.rotate (Int.le_refl 1) ht .nil)
  have hs : Bound (fun _ => none) [sampleEntry] (bound (fun _ => none) [sampleEntry]) :=
    bound_spec (by decide)
  have i := sound_of_run sampleWritten_run (hs.sound (by decide) (by decide))
  have h₁ := h _ _ _ _ (by decide) (by decide) sampleWritten_run
  have h₂ := h _ _ _ _ (by decide) (by decide) (sampleWritten_run.snoc e)
  have hf := (e.intact_iff i h₁).mp h₂ sampleEntry (List.mem_singleton_self _) (Int.le_refl 1)
  exact absurd hf (by decide)

end

end Lproxy.Log.Rotate
