import Lproxy.Log.Rotate
import Lproxy.Lib.Counting
import Mathlib.Data.List.AList

-- The archives that the Python part makes: how each of them gets a name of its own.
namespace Lproxy.Log.Archive

-- The module `gzip`: the file that pieces have been written to, and what is read from a file.
structure Gzip where
  writelines : List Data → Data
  read : Data → Option Data

def Gzip.Restores (g : Gzip) : Prop :=
  ∀ ls, g.read (g.writelines ls) = some ls.flatten

-- The existing files.
abbrev Disk := AList fun _ : String => Data

-- The lines of a file, with their line ends.
def lines : Data → List Data
  | []     => []
  | b :: d =>
    match lines d with
    | []      => [[b]]
    | l :: ls => if b = 10 then [b] :: l :: ls else (b :: l) :: ls

def newgzfile (gzpath : String) (i : Nat) : String :=
  gzpath ++ (if i < 10 then "_0" else "_") ++ toString i

section

variable (g : Gzip) (s : Disk)

-- The search of `read_txt_write_gz` for a name, which it adds the extension to.
def search (gzpath : String) (fuel : Nat) : Option String :=
  if gzpath ++ ".gz" ∈ s then
    (Counting.upWhile (newgzfile gzpath · ++ ".gz" ∈ s) fuel 1).map (newgzfile gzpath)
  else some gzpath

def readTxtWriteGz (tpath gzpath : String) (fuel : Nat) : Option (Disk × Bool) :=
  (search s gzpath fuel).map fun gzpath =>
    match s.lookup tpath with
    | some t => (s.insert (gzpath ++ ".gz") (g.writelines (lines t)), true)
    | none   => (s, false)

def logrotate (filename timeStr : String) (fuel : Nat) : Option (Disk × Bool) :=
  readTxtWriteGz g s filename (filename ++ "." ++ timeStr) fuel

end

-- A rotation of a log file, with what has been written to it by then.
structure Rotation where
  filename : String
  timeStr : String
  log : Data

-- Some rotations, with the files that are made by them.
def rotations (g : Gzip) (fuel : Nat) : Disk → List Rotation → Option (Disk × List String)
  | s, []      => some (s, [])
  | s, r :: rs => do
    let s := s.insert r.filename r.log
    let (t, _) ← logrotate g s r.filename r.timeStr fuel
    let (u, names) ← rotations g fuel t rs
    some (u, t.keys.filter (· ∉ s) ++ names)

-- A new file has the content of the log, and all other files are as they were.
structure Archived (g : Gzip) (s t : Disk) (log : Data) (name : String) : Prop where
  fresh : name ∉ s
  content : (t.lookup name).bind g.read = some log
  kept : ∀ n, n ≠ name → t.lookup n = s.lookup n

-- Every rotation has an archive of its own. No other log file is supposed to have its name.
structure Rotated (g : Gzip) (s : Disk) (rs : List Rotation) (u : Disk) (names : List String) :
    Prop where
  length : names.length = rs.length
  nodup : names.Nodup
  fresh : ∀ n ∈ names, n ∉ s
  kept : ∀ n ∈ s, n ∉ rs.map Rotation.filename → u.lookup n = s.lookup n
  content : ∀ p ∈ rs.zip names, (∀ r ∈ rs, r.filename = p.1.filename ∨ r.filename ≠ p.2) →
    (u.lookup p.2).bind g.read = some p.1.log

section Names

variable {gzpath : String} {i j : Nat}

theorem toList_newgzfile : (newgzfile gzpath i).toList =
    gzpath.toList ++ '_' :: ((if i < 10 then ['0'] else []) ++ Nat.toDigits 10 i) := by
  rw [newgzfile, Nat.toString_eq_ofList_toDigits]
  split <;> simp

-- The number can be read back from the name: it does not matter that it is filled up with a zero.
theorem newgzfile_injective : (newgzfile gzpath · ++ ".gz").Injective := by
  have h (i : Nat) :
      Nat.ofDigitChars 10 ((if i < 10 then ['0'] else []) ++ Nat.toDigits 10 i) 0 = i := by
    split <;> simp [Nat.ofDigitChars_cons]
  intro i j he
  have he : newgzfile gzpath i ++ ".gz" = newgzfile gzpath j ++ ".gz" := he
  have hl := congrArg String.toList (String.append_left_inj _ |>.mp he)
  rw [toList_newgzfile, toList_newgzfile] at hl
  have hd := (List.cons.inj (List.append_cancel_left hl)).2
  rw [← h i, hd, h j]

theorem archiveName_eq (h : 0 < i) : Rotate.archiveName gzpath i = newgzfile gzpath i ++ ".gz" := by
  cases i
  case zero => omega
  case succ => rfl

end Names

@[simp]
theorem flatten_lines (d : Data) : (lines d).flatten = d := by
  induction d
  case nil         => rfl
  case cons b d hi =>
    rw [lines]
    split
    case h_1 h =>
      rw [h] at hi
      simp [← hi]
    case h_2 h =>
      rw [h] at hi
      split <;> simp [← hi]

section

variable {g : Gzip} {s t u : Disk} {gzpath tpath filename : String} {log : Data} {fuel : Nat}

theorem length_keys_insert {name : String} {d : Data} :
    (s.insert name d).keys.length ≤ s.keys.length + 1 := by
  rw [AList.keys_insert, List.length_cons]
  exact Nat.succ_le_succ (List.length_erase_le)

-- The search takes the first of the names that is free. It makes at most one more test than there
-- are files.
theorem search_spec (s : Disk) (gzpath : String) :
    ∃ p i, p ++ ".gz" = Rotate.archiveName gzpath i ∧ p ++ ".gz" ∉ s ∧
      (∀ j < i, Rotate.archiveName gzpath j ∈ s) ∧
      ∀ fuel, s.keys.length < fuel → search s gzpath fuel = some p := by
  by_cases hm : gzpath ++ ".gz" ∈ s
  case neg => exact ⟨gzpath, 0, rfl, hm, nofun, fun fuel _ => if_neg hm⟩
  case pos =>
    have hs (i : Nat) (h : decide (newgzfile gzpath i ++ ".gz" ∈ s) = true) :
        newgzfile gzpath i ++ ".gz" ∈ s.keys.toFinset :=
      List.mem_toFinset.mpr (AList.mem_keys.mp (of_decide_eq_true h))
    have ⟨i, hf, hle⟩ := Counting.exists_first_of_finite newgzfile_injective (i := 1) hs
    rw [List.toFinset_card_of_nodup s.keys_nodup] at hle
    refine ⟨newgzfile gzpath i, i, (archiveName_eq hf.le).symm, by simpa using hf.stop, ?_, ?_⟩
    case refine_1 =>
      intro j hj
      cases j
      case zero   => exact hm
      case succ j => exact archiveName_eq (j.succ_pos) ▸ by simpa using hf.before _ (by omega) hj
    case refine_2 =>
      intro fuel hfuel
      rw [search, if_pos hm, Counting.upWhile_of_first hf (by omega), Option.map_some]

theorem readTxtWriteGz_eq (g : Gzip) (gzpath : String) (h : s.lookup tpath = some log) :
    ∃ name, name ∉ s ∧ ∀ fuel, s.keys.length < fuel →
      readTxtWriteGz g s tpath gzpath fuel =
        some (s.insert name (g.writelines (lines log)), true) := by
  have ⟨p, _, _, hn, _, hs⟩ := search_spec s gzpath
  refine ⟨p ++ ".gz", hn, fun fuel hf => ?_⟩
  rw [readTxtWriteGz, hs fuel hf, Option.map_some, h]

theorem archived_insert (hg : g.Restores) {name : String} (h : name ∉ s) :
    Archived g s (s.insert name (g.writelines (lines log))) log name where
  fresh := h
  content := by rw [AList.lookup_insert, Option.bind_some, hg, flatten_lines]
  kept _ hne := AList.lookup_insert_ne hne

theorem newFiles_insert {name : String} {d : Data} (h : name ∉ s) :
    (s.insert name d).keys.filter (· ∉ s) = [name] := by
  have he : s.keys.erase name = s.keys := List.erase_of_not_mem (AList.mem_keys.not.mp h)
  have hs : s.keys.filter (· ∉ s) = [] :=
    List.filter_eq_nil_iff.mpr fun n hn => by simpa using AList.mem_keys.mpr hn
  rw [AList.keys_insert, he, List.filter_cons_of_pos (by simpa using h), hs]

-- What one more rotation before the others adds.
theorem Rotated.cons {r : Rotation} {rs : List Rotation} {name : String} {names : List String}
    (ha : Archived g (s.insert r.filename r.log) t r.log name) (h : Rotated g t rs u names) :
    Rotated g s (r :: rs) u (name :: names) := by
  have hne : name ≠ r.filename := fun he => ha.fresh (he ▸ (AList.mem_insert s).mpr (.inl rfl))
  have hmem (n : String) (hn : n ∈ s) : n ∈ s.insert r.filename r.log :=
    (AList.mem_insert s).mpr (.inr hn)
  have hname : name ∈ t := by
    rw [← AList.lookup_isSome]
    have hc := ha.content
    cases he : t.lookup name
    case none => simp [he] at hc
    case some => rfl
  have ht (n : String) (hn : n ∈ s.insert r.filename r.log) : n ∈ t := by
    have hne : n ≠ name := fun he => ha.fresh (he ▸ hn)
    rw [← AList.lookup_isSome, ha.kept n hne, AList.lookup_isSome]
    exact hn
  constructor
  case length => rw [List.length_cons, List.length_cons, h.length]
  case nodup  => exact List.nodup_cons.mpr ⟨fun hm => h.fresh name hm hname, h.nodup⟩
  case fresh  =>
    intro n hm hn
    cases List.mem_cons.mp hm
    case inl he => exact ha.fresh (he ▸ hmem n hn)
    case inr hm => exact h.fresh n hm (ht n (hmem n hn))
  case kept =>
    intro n hn hr
    have ⟨hnr, hr⟩ := not_or.mp (List.mem_cons.not.mp hr)
    have hna : n ≠ name := fun he => ha.fresh (he ▸ hmem n hn)
    rw [h.kept n (ht n (hmem n hn)) hr, ha.kept n hna, AList.lookup_insert_ne hnr]
  case content =>
    intro p hp hf
    cases List.mem_cons.mp hp
    case inr hp => exact h.content p hp fun r hr => hf r (List.mem_cons_of_mem _ hr)
    case inl he =>
      subst he
      have hr : name ∉ rs.map Rotation.filename := by
        intro hm
        have ⟨r', hr', he⟩ := List.mem_map.mp hm
        cases hf r' (List.mem_cons_of_mem _ hr')
        case inl h => exact hne (he.symm.trans h)
        case inr h => exact h he
      rw [h.kept name hname hr, ha.content]

-- Any number of rotations ends, in an archive for each of them.
theorem rotations_spec (hg : g.Restores) (s : Disk) (rs : List Rotation) :
    ∃ u names, Rotated g s rs u names ∧ ∀ fuel, s.keys.length + 2 * rs.length < fuel →
      rotations g fuel s rs = some (u, names) := by
  induction rs generalizing s
  case nil => exact ⟨s, [], ⟨rfl, .nil, nofun, fun _ _ _ => rfl, nofun⟩, fun _ _ => rfl⟩
  case cons r rs hi =>
    have hl : (s.insert r.filename r.log).lookup r.filename = some r.log := AList.lookup_insert s
    have ⟨name, hn, hw⟩ := readTxtWriteGz_eq g (r.filename ++ "." ++ r.timeStr) hl
    have ⟨u, names, h, hf⟩ := hi ((s.insert r.filename r.log).insert name
      (g.writelines (lines r.log)))
    refine ⟨u, name :: names, .cons (archived_insert hg hn) h, fun fuel hfuel => ?_⟩
    rw [List.length_cons] at hfuel
    have h₁ : (s.insert r.filename r.log).keys.length ≤ _ := length_keys_insert
    have h₂ : ((s.insert r.filename r.log).insert name (g.writelines (lines r.log))).keys.length ≤
        _ := length_keys_insert
    simp only [rotations, logrotate, hw fuel (by omega), hf fuel (by omega), Option.bind_eq_bind,
      Option.bind_some, newFiles_insert hn, List.singleton_append]

-- Archives do not overwrite each other, and there is one for every rotation.
theorem archives_spec (hg : g.Restores) :
    (∀ (s : Disk) (tpath gzpath : String) (log : Data), s.lookup tpath = some log →
      ∃ name t, Archived g s t log name ∧ ∀ fuel, s.keys.length < fuel →
        readTxtWriteGz g s tpath gzpath fuel = some (t, true)) ∧
    ∀ (s : Disk) (rs : List Rotation), ∃ u names, Rotated g s rs u names ∧
      ∀ fuel, s.keys.length + 2 * rs.length < fuel → rotations g fuel s rs = some (u, names) := by
  refine ⟨fun s tpath gzpath log h => ?_, rotations_spec hg⟩
  have ⟨name, hn, hf⟩ := readTxtWriteGz_eq g gzpath h
  exact ⟨name, _, archived_insert hg hn, hf⟩

-- Without a log, nothing is made.
theorem readTxtWriteGz_of_none (g : Gzip) (gzpath : String) (h : s.lookup tpath = none)
    (hf : s.keys.length < fuel) : readTxtWriteGz g s tpath gzpath fuel = some (s, false) := by
  have ⟨p, _, _, _, _, hs⟩ := search_spec s gzpath
  rw [readTxtWriteGz, hs fuel hf, Option.map_some, h]

-- The calls are the rotations of the C++ part, if an archive is taken for its content.
theorem logrotate_rotates {x : Rotate.System} {timeStr : String} (hd : ∀ n, x.disk n = s.lookup n)
    (h : s.lookup filename = some log) :
    ∃ t y, (∀ fuel, s.keys.length < fuel →
      logrotate ⟨List.flatten, some⟩ s filename timeStr fuel = some (t, true)) ∧
      Rotate.Rotates x filename y ∧ ∀ n, y.disk n = t.lookup n := by
  have ⟨p, i, he, hn, ht, hs⟩ := search_spec s (filename ++ "." ++ timeStr)
  refine ⟨s.insert (p ++ ".gz") log, _, fun fuel hf => ?_,
    @Rotate.Rotates.intro _ _ timeStr i log (by rw [hd, h]) ?_ ?_, ?_⟩
  case refine_1 => simp [logrotate, readTxtWriteGz, hs fuel hf, h]
  case refine_2 => rw [hd, ← he, AList.lookup_eq_none]; exact hn
  case refine_3 =>
    intro j hj
    rw [hd, Ne, AList.lookup_eq_none, not_not]
    exact ht j hj
  case refine_4 =>
    intro n
    change Function.update x.disk _ (some log) n = _
    rw [← he]
    by_cases hne : n = p ++ ".gz"
    case pos => rw [hne, Function.update_self, AList.lookup_insert]
    case neg => rw [Function.update_of_ne hne, AList.lookup_insert_ne hne, hd]

end

def crc32 (d : Data) : UInt32 :=
  let shift (c : UInt32) := if c % 2 = 1 then (c >>> 1) ^^^ 0xEDB88320 else c >>> 1
  ~~~d.foldl (fun c b => Nat.iterate shift 8 (c ^^^ b.toUInt32)) 0xFFFFFFFF

def littleEndian (n : Nat) (x : Nat) : Data :=
  (List.range n).map fun i => UInt8.ofNat (x >>> (8 * i))

def header (d : Data) : Data :=
  [0x1f, 0x8b, 8, 0, 0, 0, 0, 0, 0, 255, 1] ++ littleEndian 2 d.length ++
    littleEndian 2 (65535 - d.length)

def trailer (d : Data) : Data :=
  littleEndian 4 (crc32 d).toNat ++ littleEndian 4 d.length

-- The format of gzip, for a content that fits into one stored block.
def stored : Gzip where
  writelines ls := header ls.flatten ++ (ls.flatten ++ trailer ls.flatten)
  read file := some ((file.drop 15).take (file.length - 23))

theorem stored_restores : stored.Restores := by
  intro ls
  have hh : (header ls.flatten).length = 15 := rfl
  have ht : (trailer ls.flatten).length = 8 := rfl
  have hl : (stored.writelines ls).length - 23 = ls.flatten.length := by
    rw [stored, List.length_append, List.length_append, hh, ht]
    omega
  have hd : (stored.writelines ls).drop 15 = ls.flatten ++ trailer ls.flatten :=
    List.drop_left' hh
  have hr : stored.read (stored.writelines ls) =
      some (((stored.writelines ls).drop 15).take ((stored.writelines ls).length - 23)) :=
    rfl
  rw [hr, hl, hd, List.take_left]

theorem archives_spec_sample :
    ∃ u names, Rotated stored ∅ [⟨"a.log", "2014-12-24_00-37-34", [104, 105, 10]⟩,
      ⟨"a.log", "2014-12-24_00-37-34", [10]⟩] u names :=
  have ⟨u, names, h, _⟩ := (archives_spec stored_restores).2 ∅ _
  ⟨u, names, h⟩

end Lproxy.Log.Archive
