/-
What a listing of an archive shows, and what a rewrite leaves of it.

# Listing

A requested directory is a list of names (`IsName`), and a stored path
splits into names; a stored entry shows in the directory what its path
has after those of the directory (`candidate_eq_some_iff`). A listing
goes through where no name is shown as two kinds, so an archive can be
listed at every directory if and only if all its paths are safe and no
entry is a file where another one is, or passes through, a directory
(`listable_iff`).

# Rewriting

A rewrite that fails leaves the archive, and its replacement only where
the guard cannot remove it. One that succeeds has the entries that stay
and the added one. What it does not look at is the tree: it compares the
new name with whole paths, so a new entry may come to lie below a file,
or a new file above other entries. `Fits` says that it does not.
-/
import FileManager.Archives.Listing
import FileManager.Archives.Proofs.Updates
import FileManager.Lib.PathTree

namespace FileManager.Archives.Updates

open PathTree (Item Shows Agree Clash enter)
open Vfs (Instant)
open List
open Fallible (bind_eq_ok)

-- ==== directories

/-- A name between slashes. -/
def IsName (name : List Char) : Prop := name ≠ [] ∧ '/' ∉ name

instance (name : List Char) : Decidable (IsName name) := inferInstanceAs (Decidable (_ ∧ _))

/-- The requested path of a directory. -/
def dirText (dir : List (List Char)) : String := String.ofList (['/'].intercalate dir)

/-- The place of a stored entry in the tree. -/
def Stored.item (stored : Stored) : Item (List Char) where
  path := stored.path.toList.splitOn '/'
  isDirectory := stored.isDirectory

variable {dir : List (List Char)}

theorem leading_dirText (hdir : ∀ name ∈ dir, IsName name) :
    leading (dirText dir) = PathTree.leading '/' dir := by
  unfold leading
  cases dir with
  | nil => rfl
  | cons name rest =>
    rw [if_neg, PathTree.leading_eq (cons_ne_nil _ _), dirText, String.toList_ofList]
    intro hempty
    have hchars := congrArg String.toList hempty
    rw [dirText, String.toList_ofList] at hchars
    have hsplit := splitOn_intercalate '/'
      (fun other hother => (hdir other hother).2) (cons_ne_nil name rest)
    rw [hchars] at hsplit
    exact (hdir name mem_cons_self).1 (List.cons.inj hsplit).1.symm

theorem candidate_eq_some_iff (hdir : ∀ name ∈ dir, IsName name) {stored : Stored}
    {raw : RawEntry} :
    candidate (dirText dir) stored = some raw
      ↔ ∃ name rest, stored.item.path = dir ++ name :: rest ∧ name ≠ []
          ∧ raw = rawEntry name (!rest.isEmpty || stored.isDirectory) stored := by
  unfold candidate
  rw [leading_dirText hdir]
  have hslash : ∀ name ∈ dir, '/' ∉ name := fun name hname => (hdir name hname).2
  constructor
  · intro h
    split at h
    case h_1 => cases h
    case h_2 remainder hremainder =>
      rw [List.isPrefixOf?_eq_some_iff_append_eq, PathTree.append_leading_iff hslash]
        at hremainder
      obtain ⟨-, h⟩ := Fallible.passed h nofun
      split at h
      case h_1 => cases h
      case h_2 name rest hsplit =>
        obtain ⟨hname, h⟩ := Fallible.passed h nofun
        cases h
        exact ⟨name, rest, by rw [Stored.item, hremainder, hsplit], hname, rfl⟩
  · intro h
    obtain ⟨name, rest, hpath, hname, rfl⟩ := h
    obtain ⟨below, hbelow, hsplit⟩ := PathTree.exists_below hpath
    rw [List.isPrefixOf?_eq_some_iff_append_eq.mpr hbelow]
    have hne : below ≠ [] := by
      intro hnil
      rw [hnil] at hsplit
      exact hname (List.cons.inj hsplit).1.symm
    dsimp only
    rw [if_neg hne, hsplit]
    dsimp only
    rw [if_neg hname]

theorem kind_rawEntry (name : List Char) (isDirectory : Bool) (stored : Stored) :
    (rawEntry name isDirectory stored).kind = if isDirectory then .directory else .file :=
  rfl

-- ==== the pass

/-- The names that are shown, in the order of the entries. -/
def shown (requested : String) (items : List Stored) : List (String × RawEntry) :=
  (items.filterMap (candidate requested)).map fun raw => (raw.name, raw)

theorem foldlM_addItem (requested : String) (items : List Stored) (children : Children) :
    items.foldlM (addItem requested) children
      = (shown requested items).foldlM (enter RawEntry.kind
          (VfsError.io "archive contains conflicting duplicate entry names")) children := by
  induction items generalizing children with
  | nil => rfl
  | cons item rest ih =>
    rw [foldlM_cons]
    unfold shown
    cases hcandidate : candidate requested item with
    | none =>
      have hadd : addItem requested children item = .ok children := by
        simp only [addItem, hcandidate]
      rw [filterMap_cons_none hcandidate, hadd]
      exact ih children
    | some raw =>
      have hadd : addItem requested children item = enter RawEntry.kind
          (VfsError.io "archive contains conflicting duplicate entry names") children
          (raw.name, raw) := by
        simp only [addItem, hcandidate]
        unfold addChild enter
        cases Keyed.get children raw.name <;> rfl
      rw [filterMap_cons_some hcandidate, map_cons, foldlM_cons, hadd]
      congr 1
      funext next
      exact ih next

theorem foldlM_addItem_ok_iff (hdir : ∀ name ∈ dir, IsName name) {items : List Stored} :
    (∃ children, items.foldlM (addItem (dirText dir)) [] = .ok children)
      ↔ ∀ name, IsName name → ∀ item ∈ items.map Stored.item,
          ∀ other ∈ items.map Stored.item, ∀ kind kind',
          Shows dir item name kind → Shows dir other name kind' → kind = kind' := by
  simp only [foldlM_addItem]
  rw [PathTree.foldlM_ok_iff]
  constructor
  · intro h name hname item hitem other hother kind kind' hshows hshows'
    obtain ⟨stored, hstored, rfl⟩ := mem_map.mp hitem
    obtain ⟨stored', hstored', rfl⟩ := mem_map.mp hother
    obtain ⟨rest, hpath, rfl⟩ := hshows
    obtain ⟨rest', hpath', rfl⟩ := hshows'
    have hraw := (candidate_eq_some_iff hdir).mpr ⟨name, rest, hpath, hname.1, rfl⟩
    have hraw' := (candidate_eq_some_iff hdir).mpr ⟨name, rest', hpath', hname.1, rfl⟩
    have hkind := h _ (mem_map_of_mem (mem_filterMap.mpr ⟨stored, hstored, hraw⟩))
      _ (mem_map_of_mem (mem_filterMap.mpr ⟨stored', hstored', hraw'⟩)) rfl
    simp only [kind_rawEntry] at hkind
    show (!rest.isEmpty || stored.isDirectory) = (!rest'.isEmpty || stored'.isDirectory)
    cases hb : (!rest.isEmpty || stored.isDirectory) with
    | true =>
      cases hb' : (!rest'.isEmpty || stored'.isDirectory) with
      | true => rfl
      | false => rw [hb, hb'] at hkind; cases hkind
    | false =>
      cases hb' : (!rest'.isEmpty || stored'.isDirectory) with
      | true => rw [hb, hb'] at hkind; cases hkind
      | false => rfl
  · intro h pair hpair other hother hkey
    obtain ⟨raw, hraw, rfl⟩ := mem_map.mp hpair
    obtain ⟨raw', hraw', rfl⟩ := mem_map.mp hother
    obtain ⟨stored, hstored, hraw⟩ := mem_filterMap.mp hraw
    obtain ⟨stored', hstored', hraw'⟩ := mem_filterMap.mp hraw'
    obtain ⟨name, rest, hpath, hname, rfl⟩ := (candidate_eq_some_iff hdir).mp hraw
    obtain ⟨name', rest', hpath', -, rfl⟩ := (candidate_eq_some_iff hdir).mp hraw'
    have hnames : name = name' := String.ofList_injective hkey
    subst hnames
    have hnamed : IsName name := by
      have hmem : name ∈ stored.path.toList.splitOn '/' := by
        show name ∈ stored.item.path
        rw [hpath]
        exact mem_append_right _ mem_cons_self
      exact ⟨hname, PathTree.not_mem_of_mem_splitOn hmem⟩
    have hkind := h name hnamed stored.item (mem_map_of_mem hstored) stored'.item
      (mem_map_of_mem hstored') _ _ ⟨rest, hpath, rfl⟩ ⟨rest', hpath', rfl⟩
    show (if (!rest.isEmpty || stored.isDirectory) = true then EntryKind.directory else .file)
      = if (!rest'.isEmpty || stored'.isDirectory) = true then EntryKind.directory else .file
    rw [show (!rest.isEmpty || stored.isDirectory) = (!rest'.isEmpty || stored'.isDirectory)
      from hkind]

-- ==== ZIP archives

section Zip

variable {crates : Crates} {lastModified : Entry → Option Instant}
  {entries : List Entry} {archive : Bytes}

/-- The entries with a safe path, as a listing takes them. -/
def storedItems (crates : Crates) (lastModified : Entry → Option Instant)
    (entries : List Entry) : List Stored :=
  entries.filterMap fun entry => (storedZip crates lastModified entry).toOption

/-- The entry under that path. -/
def storedAs (crates : Crates) (lastModified : Entry → Option Instant) (path : String)
    (entry : Entry) : Stored where
  path := path
  isDirectory := crates.isDir entry.name
  size := (entry.content.getD []).length
  modifiedAt := lastModified entry

variable {stored : Stored}

theorem storedZip_eq_ok_iff {entry : Entry} :
    storedZip crates lastModified entry = .ok stored
      ↔ ∃ path, safeEntryPath crates entry.name = .ok path
          ∧ stored = storedAs crates lastModified path entry := by
  unfold storedZip
  rw [bind_eq_ok]
  refine exists_congr fun path => and_congr_right fun _ => ?_
  constructor
  · intro h
    cases h
    rfl
  · intro h
    rw [h]
    rfl

variable {requested : String}

theorem foldlM_addZipItem {children children' : Children} :
    entries.foldlM (addZipItem crates lastModified requested) children = .ok children'
      ↔ (∀ entry ∈ entries, ∃ path, safeEntryPath crates entry.name = .ok path)
        ∧ (storedItems crates lastModified entries).foldlM (addItem requested) children
          = .ok children' := by
  induction entries generalizing children with
  | nil => exact ⟨fun h => ⟨nofun, h⟩, And.right⟩
  | cons entry rest ih =>
    rw [foldlM_cons, forall_mem_cons]
    unfold addZipItem storedItems
    cases hstored : storedZip crates lastModified entry with
    | error error =>
      refine ⟨fun h => ?_, fun h => ?_⟩
      · cases h
      · obtain ⟨path, hpath⟩ := h.1.1
        rw [storedZip_eq_ok_iff.mpr ⟨path, hpath, rfl⟩] at hstored
        cases hstored
    | ok stored =>
      obtain ⟨path, hpath, -⟩ := storedZip_eq_ok_iff.mp hstored
      rw [filterMap_cons_some (by rw [hstored]; rfl), foldlM_cons, bind_eq_ok, bind_eq_ok]
      constructor
      · intro h
        obtain ⟨next, hnext, h⟩ := h
        obtain ⟨hsafe, h⟩ := ih.mp h
        exact ⟨⟨⟨path, hpath⟩, hsafe⟩, next, hnext, h⟩
      · intro h
        obtain ⟨⟨-, hsafe⟩, next, hnext, h⟩ := h
        exact ⟨next, hnext, ih.mpr ⟨hsafe, h⟩⟩

/-- The first entry is a file where the other is, or passes through, a
directory. -/
def Clashes (crates : Crates) (file other : Entry) : Prop :=
  ∃ path path', safeEntryPath crates file.name = .ok path
    ∧ safeEntryPath crates other.name = .ok path'
    ∧ Clash IsName ⟨path.toList.splitOn '/', crates.isDir file.name⟩
        ⟨path'.toList.splitOn '/', crates.isDir other.name⟩

/-- The archive can be listed at every directory. -/
def Listable (crates : Crates) (lastModified : Entry → Option Instant) (archive : Bytes) : Prop :=
  ∀ dir, (∀ name ∈ dir, IsName name) →
    ∃ listed, listZip crates lastModified archive (dirText dir) = .ok listed

theorem mem_storedItems :
    stored ∈ storedItems crates lastModified entries
      ↔ ∃ entry ∈ entries, storedZip crates lastModified entry = .ok stored := by
  unfold storedItems
  rw [mem_filterMap]
  refine exists_congr fun entry => and_congr_right fun _ => ?_
  cases storedZip crates lastModified entry with
  | error error => exact ⟨nofun, nofun⟩
  | ok other => exact ⟨fun h => congrArg _ (Option.some.inj h), fun h => by cases h; rfl⟩

variable (lastModified) in
theorem agree_storedItems_iff :
    Agree IsName ((storedItems crates lastModified entries).map Stored.item)
      ↔ ∀ file ∈ entries, ∀ other ∈ entries, ¬ Clashes crates file other := by
  rw [PathTree.agree_iff_no_clash]
  constructor
  · intro h file hfile other hother hclash
    obtain ⟨path, path', hpath, hpath', hclash⟩ := hclash
    have hstored : storedAs crates lastModified path file ∈ storedItems crates lastModified entries :=
      mem_storedItems.mpr ⟨file, hfile, storedZip_eq_ok_iff.mpr ⟨path, hpath, rfl⟩⟩
    have hstored' : storedAs crates lastModified path' other
        ∈ storedItems crates lastModified entries :=
      mem_storedItems.mpr ⟨other, hother, storedZip_eq_ok_iff.mpr ⟨path', hpath', rfl⟩⟩
    exact h _ (mem_map_of_mem hstored) _ (mem_map_of_mem hstored') hclash
  · intro h item hitem item' hitem' hclash
    obtain ⟨stored, hstored, rfl⟩ := mem_map.mp hitem
    obtain ⟨stored', hstored', rfl⟩ := mem_map.mp hitem'
    obtain ⟨file, hfile, hstored⟩ := mem_storedItems.mp hstored
    obtain ⟨other, hother, hstored'⟩ := mem_storedItems.mp hstored'
    obtain ⟨path, hpath, rfl⟩ := storedZip_eq_ok_iff.mp hstored
    obtain ⟨path', hpath', rfl⟩ := storedZip_eq_ok_iff.mp hstored'
    exact h file hfile other hother ⟨path, path', hpath, hpath', hclash⟩

theorem listZip_eq_ok_iff (hdecode : crates.zip.decode archive = some entries)
    {listed : List RawEntry} :
    listZip crates lastModified archive requested = .ok listed
      ↔ (∀ entry ∈ entries, ∃ path, safeEntryPath crates entry.name = .ok path)
        ∧ ∃ children, (storedItems crates lastModified entries).foldlM (addItem requested) []
            = .ok children ∧ listed = sortByName children := by
  have hopen : openZip crates archive = .ok entries := by simp only [openZip, hdecode]
  unfold listZip
  rw [hopen]
  show (entries.foldlM (addZipItem crates lastModified requested) [] >>= _) = _ ↔ _
  rw [bind_eq_ok]
  constructor
  · intro h
    obtain ⟨children, hchildren, h⟩ := h
    obtain ⟨hsafe, hchildren⟩ := foldlM_addZipItem.mp hchildren
    cases h
    exact ⟨hsafe, children, hchildren, rfl⟩
  · intro h
    obtain ⟨hsafe, children, hchildren, rfl⟩ := h
    exact ⟨children, foldlM_addZipItem.mpr ⟨hsafe, hchildren⟩, rfl⟩

/-- An archive can be listed at every directory if and only if all its
paths are safe and no two of its entries clash. -/
theorem listable_iff (hdecode : crates.zip.decode archive = some entries) :
    Listable crates lastModified archive
      ↔ (∀ entry ∈ entries, ∃ path, safeEntryPath crates entry.name = .ok path)
        ∧ ∀ file ∈ entries, ∀ other ∈ entries, ¬ Clashes crates file other := by
  unfold Listable
  simp only [listZip_eq_ok_iff hdecode]
  rw [← agree_storedItems_iff lastModified]
  constructor
  · intro h
    obtain ⟨-, hsafe, -⟩ := h [] nofun
    refine ⟨hsafe, fun dir hdir => (foldlM_addItem_ok_iff hdir).mp ?_⟩
    obtain ⟨-, -, children, hchildren, -⟩ := h dir hdir
    exact ⟨children, hchildren⟩
  · intro h dir hdir
    obtain ⟨children, hchildren⟩ := (foldlM_addItem_ok_iff hdir).mpr (h.2 dir hdir)
    exact ⟨_, h.1, children, hchildren, rfl⟩

end Zip

-- ==== the rewrite

section Rewriting

variable {crates : Crates} {env : Surroundings} {rewrite : Rewrite} {entries written : List Entry}

theorem copyEntries_of_copyItems {index : Nat} {state state' : Bool × List Entry}
    (h : copyItems crates env rewrite index entries state = .ok state') :
    copyEntries crates rewrite entries state = .ok state' := by
  induction entries generalizing index state with
  | nil => exact h
  | cons item rest ih =>
    obtain ⟨isMatched, done⟩ := state
    unfold copyItems at h
    obtain ⟨-, -, h⟩ := bind_eq_ok.mp h
    obtain ⟨-, -, h⟩ := bind_eq_ok.mp h
    obtain ⟨name, hname, h⟩ := bind_eq_ok.mp h
    obtain ⟨skip, hskip, h⟩ := bind_eq_ok.mp h
    unfold copyEntries
    refine bind_eq_ok.mpr ⟨name, hname, ?_⟩
    refine bind_eq_ok.mpr ⟨skip, hskip, ?_⟩
    cases skip with
    | true => exact ih h
    | false =>
      obtain ⟨-, -, h⟩ := bind_eq_ok.mp h
      obtain ⟨done', hpush, h⟩ := bind_eq_ok.mp h
      exact bind_eq_ok.mpr ⟨done', hpush, ih h⟩

theorem rewriteEntries_of_writeReplacement
    (h : writeReplacement crates env rewrite entries = .ok written) :
    rewriteEntries crates rewrite entries = .ok written := by
  unfold writeReplacement at h
  obtain ⟨-, -, h⟩ := bind_eq_ok.mp h
  obtain ⟨⟨isMatched, copied⟩, hcopied, h⟩ := bind_eq_ok.mp h
  obtain ⟨written', hadded, h⟩ := bind_eq_ok.mp h
  obtain ⟨-, -, h⟩ := bind_eq_ok.mp h
  obtain ⟨-, -, h⟩ := bind_eq_ok.mp h
  obtain ⟨-, -, h⟩ := bind_eq_ok.mp h
  obtain ⟨-, -, h⟩ := bind_eq_ok.mp h
  cases h
  unfold rewriteEntries
  refine bind_eq_ok.mpr ⟨_, copyEntries_of_copyItems hcopied, ?_⟩
  cases rewrite with
  | addFile inner staging overwrite =>
    obtain ⟨-, -, h⟩ := bind_eq_ok.mp hadded
    obtain ⟨-, -, h⟩ := bind_eq_ok.mp h
    obtain ⟨pushed, hpush, h⟩ := bind_eq_ok.mp h
    obtain ⟨-, -, h⟩ := bind_eq_ok.mp h
    obtain ⟨-, -, h⟩ := bind_eq_ok.mp h
    cases h
    exact hpush
  | addDirectory inner =>
    obtain ⟨-, -, h⟩ := bind_eq_ok.mp hadded
    exact h
  | remove inner recursive => exact hadded

theorem rewriteZip_cases (crates : Crates) (env : Surroundings) (rewrite : Rewrite)
    (archive : Bytes) :
    (∃ error replacement, rewriteZip crates env rewrite archive
        = (.error error, { archive, replacement }) ∧ (replacement = true → env.leftover = true))
    ∨ ∃ entries written, crates.zip.decode archive = some entries
        ∧ rewriteEntries crates rewrite entries = .ok written
        ∧ rewriteZip crates env rewrite archive
          = (.ok (), { archive := crates.zip.encode written, replacement := false }) := by
  unfold rewriteZip
  dsimp only
  split
  case h_1 error hopened => exact .inl ⟨error, false, rfl, nofun⟩
  case h_2 entries hopened =>
    split
    case h_1 error hwritten => exact .inl ⟨error, env.leftover, rfl, id⟩
    case h_2 written hwritten =>
      obtain ⟨-, -, hopened⟩ := bind_eq_ok.mp hopened
      obtain ⟨entries', hopen, hopened⟩ := bind_eq_ok.mp hopened
      obtain ⟨-, -, hopened⟩ := bind_eq_ok.mp hopened
      cases hopened
      refine .inr ⟨entries, written, ?_, rewriteEntries_of_writeReplacement hwritten, rfl⟩
      unfold openZip at hopen
      split at hopen
      case h_1 => cases hopen
      case h_2 hdecode => cases hopen; exact hdecode

/-- The new entry has a safe path, and clashes with none of the entries
that stay. -/
def Fits (crates : Crates) (rewrite : Rewrite) (entries : List Entry) : Prop :=
  ∀ added, rewrite.added = some added →
    (∃ path, safeEntryPath crates added.name = .ok path)
      ∧ ∀ entry ∈ entries, rewrite.drops crates entry = false →
          ¬ Clashes crates added entry ∧ ¬ Clashes crates entry added

theorem not_clashes_self (entry : Entry) : ¬ Clashes crates entry entry := by
  intro h
  obtain ⟨path, path', hpath, hpath', hclash⟩ := h
  rw [hpath] at hpath'
  cases hpath'
  exact PathTree.not_clash_self _ hclash

theorem no_clash_iff_fits (h : rewriteEntries crates rewrite entries = .ok written)
    (hsafe : ∀ entry ∈ entries, ∃ path, safeEntryPath crates entry.name = .ok path)
    (hclear : ∀ file ∈ entries, ∀ other ∈ entries, ¬ Clashes crates file other) :
    ((∀ entry ∈ written, ∃ path, safeEntryPath crates entry.name = .ok path)
        ∧ ∀ file ∈ written, ∀ other ∈ written, ¬ Clashes crates file other)
      ↔ Fits crates rewrite entries := by
  have hkept : ∀ entry ∈ entries, rewrite.drops crates entry = false → entry ∈ written := by
    intro entry hentry hdrops
    rcases mem_or_drops h hentry with hmem | hdropped
    · exact hmem
    · simp [hdrops] at hdropped
  constructor
  · intro hall added hadded
    have hmem := added_mem h hadded
    refine ⟨hall.1 added hmem, fun entry hentry hdrops => ?_⟩
    have hentry := hkept entry hentry hdrops
    exact ⟨hall.2 added hmem entry hentry, hall.2 entry hentry added hmem⟩
  · intro hfits
    refine ⟨fun entry hentry => ?_, fun file hfile other hother => ?_⟩
    · rcases mem_of_replacement h hentry with ⟨hold, -⟩ | hadded
      · exact hsafe entry hold
      · exact (hfits entry hadded).1
    · rcases mem_of_replacement h hfile with ⟨hold, hdrops⟩ | hadded
      · rcases mem_of_replacement h hother with ⟨hold', -⟩ | hadded'
        · exact hclear file hold other hold'
        · exact ((hfits other hadded').2 file hold hdrops).2
      · rcases mem_of_replacement h hother with ⟨hold', hdrops'⟩ | hadded'
        · exact ((hfits file hadded).2 other hold' hdrops').1
        · rw [hadded] at hadded'
          cases hadded'
          exact not_clashes_self file

/-- A rewrite that fails leaves the archive. One that succeeds leaves no
replacement, and the entries that stay, in order, with the added one
last; and an archive that could be listed still can exactly if the new
entry fits. -/
theorem rewrite_zip_atomic_and_exact (crates : Crates)
    (lastModified : Entry → Option Instant) (env : Surroundings) (rewrite : Rewrite)
    (archive : Bytes) :
    (∀ error, (rewriteZip crates env rewrite archive).1 = .error error →
        (rewriteZip crates env rewrite archive).2.archive = archive
        ∧ ((rewriteZip crates env rewrite archive).2.replacement = true →
            env.leftover = true))
    ∧ ((rewriteZip crates env rewrite archive).1 = .ok () →
        (rewriteZip crates env rewrite archive).2.replacement = false
        ∧ ∃ entries, crates.zip.decode archive = some entries
          ∧ crates.zip.decode (rewriteZip crates env rewrite archive).2.archive
            = some ((entries.filter fun entry => !rewrite.drops crates entry)
                ++ rewrite.added.toList)
          ∧ (Listable crates lastModified archive →
              (Listable crates lastModified (rewriteZip crates env rewrite archive).2.archive
                ↔ Fits crates rewrite entries))) := by
  rcases rewriteZip_cases crates env rewrite archive with
    ⟨error, replacement, hresult, hleft⟩ | ⟨entries, written, hdecode, hwritten, hresult⟩
  · rw [hresult]
    exact ⟨fun _ _ => ⟨rfl, hleft⟩, nofun⟩
  · rw [hresult]
    refine ⟨nofun, fun _ => ⟨rfl, entries, hdecode, ?_, fun hlistable => ?_⟩⟩
    · rw [← rewriteEntries_ok hwritten]
      exact crates.zip.decode_encode written
    · obtain ⟨hsafe, hclear⟩ := (listable_iff hdecode).mp hlistable
      exact (listable_iff (crates.zip.decode_encode written)).trans
        (no_clash_iff_fits hwritten hsafe hclear)

end Rewriting

-- ==== the samples

/-- An archive whose directory `a` is there through the file in it
only. -/
def implicitDirectory : List Entry := [{ name := "a/x", content := some [1] }]

/-- The same with a file `a`. -/
def fileOverDirectory : List Entry :=
  [{ name := "a/x", content := some [1] }, { name := "a", content := some [2] }]

/-- A new file `a` is written beside `a/x`, and the archive can be listed
no more. -/
theorem file_over_directory_unlistable :
    (rewriteZip plainCrates .quiet (.addFile "a" [2] false)
        (plainZip.encode implicitDirectory)).1 = .ok ()
      ∧ Listable plainCrates (fun _ => none) (plainZip.encode implicitDirectory)
      ∧ ¬ Listable plainCrates (fun _ => none)
          (rewriteZip plainCrates .quiet (.addFile "a" [2] false)
            (plainZip.encode implicitDirectory)).2.archive := by
  have hresult : rewriteZip plainCrates .quiet (.addFile "a" [2] false)
      (plainZip.encode implicitDirectory)
      = (.ok (), { archive := plainZip.encode fileOverDirectory, replacement := false }) := by
    decide +kernel
  rw [hresult]
  refine ⟨rfl, ?_, ?_⟩
  · refine (listable_iff (plainZip.decode_encode _)).mpr ⟨?_, ?_⟩
    · intro entry hentry
      rw [List.mem_singleton.mp hentry]
      exact ⟨"a/x", by decide +kernel⟩
    · intro file hfile other hother
      rw [List.mem_singleton.mp hfile, List.mem_singleton.mp hother]
      exact not_clashes_self _
  · intro hlistable
    refine ((listable_iff (plainZip.decode_encode _)).mp hlistable).2
      { name := "a", content := some [2] } (by decide)
      { name := "a/x", content := some [1] } (by decide) ⟨"a", "a/x", ?_, ?_, ?_⟩
    · decide +kernel
    · decide +kernel
    · exact ⟨by decide +kernel, by decide +kernel, by decide +kernel,
        .inr ⟨['x'], [], by decide +kernel⟩⟩

end FileManager.Archives.Updates
