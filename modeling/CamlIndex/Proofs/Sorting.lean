import CamlIndex.Listing.Format
import Mathlib.Data.List.Nodup

/-!
# Sorted listings

A sorted listing orders entries by name, path and line, and two entries may agree in all
three: a line can declare a name twice.  The order of such entries is the order in which
they were found, and since they have the same path, they were found in one file.  So what
a listing says of a name on a line of a file depends on that file alone, and a sorted
list is known from what it says of every name on every line (`eq_of_filters`).

* `filter_mergeSort` — a stable sort moves no two elements that may stand either way;
* `filter_found` — what all files say of a path is what the file with that path says;
* `listings_sorted` — sorted listings of the same files are the same.
-/

namespace CamlIndex

/-! ## Stable sorts -/

section Sorting

variable {α κ : Type} {le : α → α → Bool}

/-- **A stable sort** leaves elements in their order that may stand either way. -/
theorem filter_mergeSort (htrans : ∀ a b c, le a b → le b c → le a c)
    (htotal : ∀ a b, le a b || le b a) {p : α → Bool}
    (halike : ∀ a b, p a → p b → le a b) (xs : List α) :
    (xs.mergeSort le).filter p = xs.filter p := by
  have hsorted : (xs.filter p).Pairwise fun a b => le a b :=
    List.pairwise_of_forall_mem_list fun a ha b hb =>
      halike a b (List.of_mem_filter ha) (List.of_mem_filter hb)
  have hsublist : ((xs.filter p).filter p).Sublist ((xs.mergeSort le).filter p) :=
    (List.sublist_mergeSort htrans htotal hsorted List.filter_sublist).filter p
  simp only [List.filter_filter, Bool.and_self] at hsublist
  exact (hsublist.eq_of_length ((List.mergeSort_perm xs le).filter p).length_eq.symm).symm

/-- **Sorted lists are the same** if they hold the same elements for every key, in the same
order.  Elements that may stand either way have the same key. -/
theorem eq_of_filters [DecidableEq κ] {key : α → κ}
    (hkey : ∀ a b, le a b → le b a → key a = key b) (hrefl : ∀ a, le a a) {xs ys : List α}
    (hxs : xs.Pairwise fun a b => le a b) (hys : ys.Pairwise fun a b => le a b)
    (hfilters : ∀ k, xs.filter (key · = k) = ys.filter (key · = k)) : xs = ys := by
  have hmem : ∀ a, a ∈ xs ↔ a ∈ ys := fun a => by
    have := congrArg (a ∈ ·) (hfilters (key a))
    simpa using this
  induction xs generalizing ys with
  | nil => exact (List.eq_nil_iff_forall_not_mem.mpr fun a ha => nomatch (hmem a).mpr ha).symm
  | cons a xs ih =>
      cases ys with
      | nil => exact nomatch (hmem a).mp List.mem_cons_self
      | cons b ys =>
          have hfirst : ∀ {c : α} {zs : List α}, (c :: zs).Pairwise (fun a b => le a b) →
              ∀ d ∈ c :: zs, le c d := fun h d hd =>
            (List.mem_cons.mp hd).elim (fun heq => heq ▸ hrefl _) (List.rel_of_pairwise_cons h)
          -- each of the first elements may stand in front of the other one
          have hab : key a = key b := hkey a b
            (hfirst hxs b ((hmem b).mpr List.mem_cons_self))
            (hfirst hys a ((hmem a).mp List.mem_cons_self))
          have hheads : a = b := by
            have := congrArg List.head? (hfilters (key a))
            simpa [hab] using this
          subst hheads
          have htails : ∀ k, xs.filter (key · = k) = ys.filter (key · = k) := by
            intro k
            have := hfilters k
            by_cases hk : key a = k <;> simpa [hk] using this
          rw [ih hxs.of_cons hys.of_cons htails fun c => by
            have := congrArg (c ∈ ·) (htails (key c))
            simpa using this]

end Sorting

/-! ## Entries in order -/

namespace Entry

/-- Name, then path, then line. -/
structure Key where
  name : String
  path : String
  line : Nat
  deriving DecidableEq

def key (entry : Entry) : Key :=
  ⟨entry.tag.name, entry.path, entry.tag.line⟩

/-- One entry may stand in front of another one: it comes first by name, or else by path,
or else it is not on a later line. -/
def MayPrecede (a b : Entry) : Prop :=
  a.tag.name < b.tag.name ∨ a.tag.name = b.tag.name ∧
    (a.path < b.path ∨ a.path = b.path ∧ a.tag.line ≤ b.tag.line)

theorem le_iff_mayPrecede (a b : Entry) : a.le b ↔ a.MayPrecede b := by
  have hstring : ∀ s t : String, compare s t = .lt ↔ s < t := fun _ _ => compareOfLessAndEq_eq_lt
  simp only [le, order, Ordering.isLE_then_iff_or, hstring, Std.compare_eq_iff_eq,
    Nat.isLE_compare, MayPrecede]

/-- Entries are compared by three comparisons, one after the other. -/
instance : Std.TransCmp order :=
  inferInstanceAs <| Std.TransCmp <| compareLex (compareOn fun entry : Entry => entry.tag.name) <|
    compareLex (compareOn Entry.path) (compareOn fun entry : Entry => entry.tag.line)

theorem le_trans (a b c : Entry) (hab : a.le b) (hbc : b.le c) : a.le c :=
  Std.TransCmp.isLE_trans hab hbc

theorem le_total (a b : Entry) : a.le b || b.le a := by
  have hswap : b.order a = (a.order b).swap := Std.OrientedCmp.eq_swap
  unfold le
  rw [hswap]
  cases a.order b <;> rfl

theorem le_of_key {a b : Entry} (h : a.key = b.key) : a.le b := by
  obtain ⟨hname, hpath, hline⟩ := Key.mk.inj h
  rw [le_iff_mayPrecede]
  exact .inr ⟨hname, .inr ⟨hpath, Nat.le_of_eq hline⟩⟩

/-- **Entries that may stand either way** agree in name, path and line. -/
theorem key_eq_of_le (a b : Entry) (hab : a.le b) (hba : b.le a) : a.key = b.key := by
  have horder : a.order b = .eq := Std.OrientedCmp.isLE_antisymm hab hba
  obtain ⟨hname, hpath, hline⟩ : compare a.tag.name b.tag.name = .eq ∧
      compare a.path b.path = .eq ∧ compare a.tag.line b.tag.line = .eq := by
    simpa [order, Ordering.then_eq_eq] using horder
  rw [key, key, Key.mk.injEq]
  exact ⟨Std.compare_eq_iff_eq.mp hname, Std.compare_eq_iff_eq.mp hpath,
    Std.compare_eq_iff_eq.mp hline⟩

end Entry

/-! ## Entries of several files -/

section Files

variable {files : List TaggedFile} {path : String} {p : Entry → Bool}

theorem TaggedFile.path_of_mem_entries {file : TaggedFile} {entry : Entry}
    (h : entry ∈ file.entries) : entry.path = file.path := by
  obtain ⟨tag, -, rfl⟩ := List.mem_map.mp h
  rfl

/-- Files with other paths say nothing of a path. -/
theorem filter_elsewhere (hp : ∀ entry, p entry → entry.path = path)
    (hpath : path ∉ files.map TaggedFile.path) :
    (files.flatMap TaggedFile.entries).filter p = [] := by
  rw [List.filter_eq_nil_iff]
  intro entry hentry hheld
  obtain ⟨file, hfile, hentry⟩ := List.mem_flatMap.mp hentry
  refine hpath (List.mem_map.mpr ⟨file, hfile, ?_⟩)
  rw [← TaggedFile.path_of_mem_entries hentry, hp entry hheld]

/-- **What all files say of a path** is what the file with that path says. -/
theorem filter_found (hpaths : (files.map TaggedFile.path).Nodup) {file : TaggedFile}
    (hfile : file ∈ files) (hp : ∀ entry, p entry → entry.path = file.path) :
    (files.flatMap TaggedFile.entries).filter p = file.entries.filter p := by
  induction files with
  | nil => cases hfile
  | cons first files ih =>
      obtain ⟨hfirst, hpaths⟩ := List.nodup_cons.mp hpaths
      rw [List.flatMap_cons, List.filter_append]
      rcases List.mem_cons.mp hfile with rfl | hfile
      · rw [filter_elsewhere hp hfirst, List.append_nil]
      · have hother : file.path ∉ [first].map TaggedFile.path := by
          rw [List.map_singleton, List.mem_singleton]
          exact fun heq => hfirst (heq ▸ List.mem_map_of_mem hfile)
        have hnone := filter_elsewhere hp hother
        rw [List.flatMap_singleton] at hnone
        rw [hnone, List.nil_append, ih hpaths hfile]

/-- A sorted listing keeps the order of entries with the same key. -/
theorem filter_entries (files : List TaggedFile) {key : Entry.Key}
    (hp : ∀ entry, p entry → entry.key = key) :
    (entries files true).filter p = (files.flatMap TaggedFile.entries).filter p :=
  filter_mergeSort Entry.le_trans Entry.le_total
    (fun a b ha hb => Entry.le_of_key ((hp a ha).trans (hp b hb).symm)) _

/-- **The same files in any order** have the same sorted listing. -/
theorem entries_eq_of_perm {files' : List TaggedFile} (hperm : files.Perm files')
    (hpaths : (files.map TaggedFile.path).Nodup) : entries files true = entries files' true := by
  have hpaths' : (files'.map TaggedFile.path).Nodup := (hperm.map _).nodup_iff.mp hpaths
  have hsorted : ∀ files, (entries files true).Pairwise fun a b => a.le b := fun files =>
    List.pairwise_mergeSort Entry.le_trans Entry.le_total _
  refine eq_of_filters Entry.key_eq_of_le (fun a => Entry.le_of_key rfl) (hsorted _) (hsorted _)
    fun key => ?_
  have hp : ∀ entry : Entry, decide (entry.key = key) = true → entry.path = key.path :=
    fun entry hentry => of_decide_eq_true hentry ▸ rfl
  rw [filter_entries files fun _ => of_decide_eq_true,
    filter_entries files' fun _ => of_decide_eq_true]
  by_cases hmem : key.path ∈ files.map TaggedFile.path
  · obtain ⟨file, hfile, hpath⟩ := List.mem_map.mp hmem
    rw [← hpath] at hp
    rw [filter_found hpaths hfile hp, filter_found hpaths' (hperm.mem_iff.mp hfile) hp]
  · rw [filter_elsewhere hp hmem, filter_elsewhere hp ((hperm.map _).mem_iff.not.mp hmem)]

end Files

/-- What a sorted listing of files lists: all their tags, by name, path and line, and those
of one file that share name and line as they were found. -/
structure ListsSorted (files : List TaggedFile) (listed : List Entry) : Prop where
  perm : listed.Perm (files.flatMap TaggedFile.entries)
  ordered : listed.Pairwise Entry.MayPrecede
  stable : ∀ file ∈ files, ∀ (name : String) (line : Nat),
    (listed.filter fun entry =>
        entry.path = file.path ∧ entry.tag.name = name ∧ entry.tag.line = line).map Entry.tag =
      file.tags.filter fun tag => tag.name = name ∧ tag.line = line

/-- The listings of files in four formats, made from the entries that they list. -/
structure Writes (options : ListingOptions) (files : List TaggedFile) (listed : List Entry) :
    Prop where
  ctags : Format.ctags.write options files =
    String.join (((if options.header then Ctags.header options.sort else [])
      ++ listed.map Ctags.line).map (· ++ "\n"))
  xref : Format.xref.write options files =
    String.join (listed.map fun entry => Xref.line entry ++ "\n")
  json : Format.json.write options files = (Datum.list (listed.map Entry.toDatum)).toJson
  yaml : Format.yaml.write options files = (Datum.list (listed.map Entry.toDatum)).toYaml

theorem writes_entries (options : ListingOptions) (files : List TaggedFile) :
    Writes options files (entries files options.sort) :=
  ⟨rfl, rfl, rfl, rfl⟩

theorem listsSorted_entries {files : List TaggedFile}
    (hpaths : (files.map TaggedFile.path).Nodup) : ListsSorted files (entries files true) where
  perm := List.mergeSort_perm _ _
  ordered := (List.pairwise_mergeSort Entry.le_trans Entry.le_total _).imp
    fun {a b} h => (Entry.le_iff_mayPrecede a b).mp h
  stable file hfile name line := by
    have hkey : ∀ entry : Entry,
        decide (entry.path = file.path ∧ entry.tag.name = name ∧ entry.tag.line = line) = true →
          entry.key = ⟨name, file.path, line⟩ := by
      intro entry hentry
      obtain ⟨hpath, hname, hline⟩ := of_decide_eq_true hentry
      rw [Entry.key, hpath, hname, hline]
    rw [filter_entries files hkey, filter_found hpaths hfile fun _ h => (of_decide_eq_true h).1]
    simp [TaggedFile.entries, List.filter_map, Function.comp_def]

/-- **Sorted listings do not depend on the order of the files.** -/
theorem listings_sorted {files files' : List TaggedFile} (hperm : files.Perm files')
    (hpaths : (files.map TaggedFile.path).Nodup) (options : ListingOptions)
    (hsort : options.sort = true) :
    ∃ listed, ListsSorted files listed ∧ Writes options files listed ∧
      Writes options files' listed ∧
      ∀ format ∈ [Format.ctags, .xref, .json, .yaml],
        format.write options files = format.write options files' := by
  have hwrites := writes_entries options files
  have hwrites' := writes_entries options files'
  rw [hsort] at hwrites hwrites'
  rw [← entries_eq_of_perm hperm hpaths] at hwrites'
  refine ⟨entries files true, listsSorted_entries hpaths, hwrites, hwrites', ?_⟩
  intro format hformat
  simp only [List.mem_cons, List.not_mem_nil, or_false] at hformat
  rcases hformat with rfl | rfl | rfl | rfl
  · exact hwrites.ctags.trans hwrites'.ctags.symm
  · exact hwrites.xref.trans hwrites'.xref.symm
  · exact hwrites.json.trans hwrites'.json.symm
  · exact hwrites.yaml.trans hwrites'.yaml.symm

/-- A file that declares a name twice on one line. -/
def twoPoints : TaggedFile where
  path := "two.ml"
  source := "let point = 1 let point = 2\n"
  tags := [⟨"point", .variableDef, 1, 4, 4, none⟩, ⟨"point", .variableDef, 1, 18, 18, none⟩]

/-- Another file that declares the same name. -/
def onePoint : TaggedFile where
  path := "one.ml"
  source := "let point = 0\n"
  tags := [⟨"point", .variableDef, 1, 4, 4, none⟩]

theorem listings_sorted_points :
    [twoPoints, onePoint].Perm [onePoint, twoPoints] ∧
      ∀ format ∈ [Format.ctags, .xref, .json, .yaml],
        format.write {} [twoPoints, onePoint] = format.write {} [onePoint, twoPoints] := by
  have hperm : [twoPoints, onePoint].Perm [onePoint, twoPoints] := List.Perm.swap _ _ _
  obtain ⟨_, -, -, -, hsame⟩ := listings_sorted hperm (by decide) {} rfl
  exact ⟨hperm, hsame⟩

end CamlIndex
