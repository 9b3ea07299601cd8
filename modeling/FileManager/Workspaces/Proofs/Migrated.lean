/-
What a migration changes, and where it fails.

# Frames

A migration walks from the workspace to its panes, tabs and locations.
At each level an object keeps the fields it has, but for the ones that
are walked into (`ObjectFrame`), an array its items (`ArrayFrame`), and
any other value stays. A location is repaired (`Repair`), or stays.

# Tabs

The walk indexes every tab with `"location"`. That makes a field in an
object, an object of null, and a panic of anything else: the migrations
keep to their frame exactly where every tab is an object.
-/
import FileManager.Workspaces.Proofs.Startup

namespace FileManager.Workspaces

open Fallible Value Keyed

variable {json : Json} {R : Value → Value → Prop} {F : String → Value → Value → Prop}
  {key other : String} {fields : Fields} {version : Nat} {e : Unread}

-- ==== frames

/-- The fields of an object stay related, and others may be added. -/
def FieldsFrame (R : String → Value → Value → Prop) (fields fields' : Fields) : Prop :=
  ∀ key x, get fields key = some x → ∃ y, get fields' key = some y ∧ R key x y

/-- The fields of an object stay related; any other value stays. -/
inductive ObjectFrame (R : String → Value → Value → Prop) : Value → Value → Prop
  | object {fields fields' : Fields} (h : FieldsFrame R fields fields') :
      ObjectFrame R (.object fields) (.object fields')
  | same (value : Value) : ObjectFrame R value value

/-- The items of an array stay related; any other value stays. -/
inductive ArrayFrame (R : Value → Value → Prop) : Value → Value → Prop
  | array {items items' : List Value} (h : List.Forall₂ R items items') :
      ArrayFrame R (.array items) (.array items')
  | same (value : Value) : ArrayFrame R value value

/-- What is repaired of a location: the obsolete alias of a `file:` URI's
provider, or a URI that goes on with a raw native path. -/
inductive Repair : Value → Value → Prop
  | alias {fields : Fields} {uri : String}
      (huri : get fields "uri" = some (.string uri))
      (hfile : uri.toList.take 5 = "file:".toList)
      (halias : get fields "provider_id" = some (.string "file")) :
      Repair (.object fields) (.object (put fields "provider_id" (.string "local")))
  | nativePath {fields : Fields} {uri : String} {path : List Char} (repaired : String)
      (huri : get fields "uri" = some (.string uri))
      (hraw : rawNativePath uri = some path) :
      Repair (.object fields) (.object (put fields "uri" (.string repaired)))

/-- A location is repaired, or stays. -/
abbrev LocationFrame : Value → Value → Prop := Relation.ReflTransGen Repair

/-- What may become of a field of a history, a tab, a pane and a
workspace. -/
def historyField (key : String) : Value → Value → Prop :=
  if key = "back" ∨ key = "forward" then ArrayFrame LocationFrame else Eq

def tabField (key : String) : Value → Value → Prop :=
  if key = "location" then LocationFrame
  else if key = "history" then ObjectFrame historyField else Eq

def paneField (key : String) : Value → Value → Prop :=
  if key = "tabs" then ArrayFrame (ObjectFrame tabField) else Eq

def workspaceField (key : String) : Value → Value → Prop :=
  if key = "schema_version" then fun _ _ => True
  else if key = "panes" then ArrayFrame (ObjectFrame paneField) else Eq

-- ==== chains of changes

/-- A relation that chains of changes keep to. -/
structure Chains (R : Value → Value → Prop) : Prop where
  refl : ∀ a, R a a
  trans : ∀ a b c, R a b → R b c → R a c

theorem chains_eq : Chains Eq := ⟨fun _ => rfl, fun _ _ _ h h' => h.trans h'⟩

theorem forall₂_trans (hR : Chains R) {xs ys zs : List Value} (h : List.Forall₂ R xs ys)
    (h' : List.Forall₂ R ys zs) : List.Forall₂ R xs zs := by
  induction h generalizing zs with
  | nil => exact h'
  | cons hxy _ ih =>
    cases h' with
    | cons hyz hrest => exact .cons (hR.trans _ _ _ hxy hyz) (ih hrest)

theorem chains_array (hR : Chains R) : Chains (ArrayFrame R) where
  refl := .same
  trans a b c h h' := by
    cases h with
    | same => exact h'
    | array h =>
      cases h' with
      | same => exact .array h
      | array h' => exact .array (forall₂_trans hR h h')

theorem FieldsFrame.refl (hF : ∀ key, Chains (F key)) (fields : Fields) :
    FieldsFrame F fields fields :=
  fun key x hx => ⟨x, hx, (hF key).refl x⟩

theorem FieldsFrame.trans (hF : ∀ key, Chains (F key)) {f g k : Fields}
    (h : FieldsFrame F f g) (h' : FieldsFrame F g k) : FieldsFrame F f k := by
  intro key x hx
  obtain ⟨y, hy, hxy⟩ := h key x hx
  obtain ⟨z, hz, hyz⟩ := h' key y hy
  exact ⟨z, hz, (hF key).trans x y z hxy hyz⟩

theorem chains_object (hF : ∀ key, Chains (F key)) : Chains (ObjectFrame F) where
  refl := .same
  trans a b c h h' := by
    cases h with
    | same => exact h'
    | object h =>
      cases h' with
      | same => exact .object h
      | object h' => exact .object (h.trans hF h')

theorem chains_location : Chains LocationFrame := ⟨fun _ => .refl, fun _ _ _ h h' => h.trans h'⟩

theorem chains_history (key : String) : Chains (historyField key) := by
  unfold historyField
  split
  · exact chains_array chains_location
  · exact chains_eq

theorem chains_tab (key : String) : Chains (tabField key) := by
  unfold tabField
  split
  · exact chains_location
  · split
    · exact chains_object chains_history
    · exact chains_eq

theorem chains_pane (key : String) : Chains (paneField key) := by
  unfold paneField
  split
  · exact chains_array (chains_object chains_tab)
  · exact chains_eq

theorem chains_workspace (key : String) : Chains (workspaceField key) := by
  unfold workspaceField
  split
  · exact ⟨fun _ => trivial, fun _ _ _ _ _ => trivial⟩
  · split
    · exact chains_array (chains_object chains_pane)
    · exact chains_eq

-- ==== changes

section Changes

variable {change : Value → Migrated Value} {fields fields' : Fields} {value value' : Value}
  {key : String}

theorem orInsert_frame (hF : ∀ key, Chains (F key)) (key : String) (value : Value) :
    FieldsFrame F fields (orInsert key value fields) := by
  unfold orInsert
  split
  · exact .refl hF fields
  · intro other x hx
    by_cases hkey : other = key
    · subst hkey
      simp_all
    · rw [get_put, if_neg hkey]
      exact ⟨x, hx, (hF other).refl x⟩

theorem put_frame (hF : ∀ key, Chains (F key)) {y : Value}
    (h : ∀ x, get fields key = some x → F key x y) : FieldsFrame F fields (put fields key y) := by
  intro other x hx
  rw [get_put]
  by_cases hkey : other = key
  · subst hkey
    exact ⟨y, if_pos rfl, h x hx⟩
  · exact ⟨x, by rw [if_neg hkey, hx], (hF other).refl x⟩

theorem changeField_frame (hF : ∀ key, Chains (F key))
    (h : ∀ x, get fields key = some x → ∀ y, change x = .ok y → F key x y)
    (hchange : changeField key change fields = .ok fields') : FieldsFrame F fields fields' := by
  unfold changeField at hchange
  split at hchange
  · cases hchange
    exact .refl hF fields
  · rename_i value hget
    obtain ⟨value', hvalue, heq⟩ := bind_eq_ok.mp hchange
    cases heq
    refine put_frame hF fun x hx => ?_
    rw [hget] at hx
    cases hx
    exact h _ hget _ hvalue

theorem forall₂_imp_mem {S : Value → Value → Prop} {xs ys : List Value}
    (hS : ∀ x ∈ xs, ∀ y, S x y → R x y) (h : List.Forall₂ S xs ys) : List.Forall₂ R xs ys := by
  induction h with
  | nil => exact .nil
  | cons hxy _ ih =>
    rw [List.forall_mem_cons] at hS
    exact .cons (hS.1 _ hxy) (ih hS.2)

theorem changeItems_frame (h : ∀ x ∈ value.asArray.getD [], ∀ y, change x = .ok y → R x y)
    (hchange : changeItems change value = .ok value') : ArrayFrame R value value' := by
  cases value with
  | array items =>
    obtain ⟨items', hitems, heq⟩ := bind_eq_ok.mp hchange
    cases heq
    exact .array (forall₂_imp_mem h (forall₂_of_mapM hitems))
  | _ =>
    cases hchange
    exact .same _

theorem changeObject_frame {change : Fields → Migrated Fields}
    (h : ∀ f, value = .object f → ∀ f', change f = .ok f' → FieldsFrame F f f')
    (hchange : changeObject change value = .ok value') : ObjectFrame F value value' := by
  cases value with
  | object fields =>
    obtain ⟨fields', hfields, heq⟩ := bind_eq_ok.mp hchange
    cases heq
    exact .object (h _ rfl _ hfields)
  | _ =>
    cases hchange
    exact .same _

end Changes

-- ==== locations and tabs

theorem normalize_frame (location : Value) :
    LocationFrame location (normalizeLocalLocation location) := by
  cases location with
  | object fields =>
    unfold normalizeLocalLocation
    dsimp only
    split
    case isFalse => exact .refl
    case isTrue h =>
      obtain ⟨hfile, halias⟩ := h
      obtain ⟨uri, huri, hfile⟩ := (Option.any_eq_true _ _).mp hfile
      obtain ⟨value, hvalue, huri⟩ := Option.bind_eq_some_iff.mp huri
      obtain ⟨value', hvalue', halias⟩ := Option.bind_eq_some_iff.mp halias
      cases value <;> cases huri
      cases value' <;> cases halias
      exact .single (.alias hvalue (of_decide_eq_true hfile) hvalue')
  | _ => exact .refl

theorem repair_frame (isUuid : List Char → Bool) (location : Value) :
    LocationFrame location (repairNativePathLocation isUuid location) := by
  cases location with
  | object fields =>
    unfold repairNativePathLocation
    dsimp only
    split
    case h_1 => exact .refl
    case h_2 path hpath =>
      obtain ⟨uri, huri, hraw⟩ := Option.bind_eq_some_iff.mp hpath
      obtain ⟨value, hvalue, huri⟩ := Option.bind_eq_some_iff.mp huri
      cases value <;> cases huri
      split
      · exact .single (.nativePath _ hvalue hraw)
      · exact .refl
  | _ => exact .refl

def Value.IsObject (value : Value) : Prop := ∃ fields, value = .object fields

variable {change : Value → Value} {tab tab' : Value}

theorem tab_frame (h : ∀ location, LocationFrame location (change location)) (htab : tab.IsObject)
    (hchange : changeTabLocations change tab = .ok tab') : ObjectFrame tabField tab tab' := by
  obtain ⟨fields, rfl⟩ := htab
  obtain ⟨next, hnext, hchange⟩ := bind_eq_ok.mp hchange
  cases hnext
  refine (chains_object chains_tab).trans _ _ _ (.object (put_frame chains_tab ?_))
    (changeObject_frame (fun f _ f' hf => ?_) hchange)
  · intro x hx
    rw [hx]
    exact h x
  · refine changeField_frame chains_tab (fun x _ y hxy => ?_) hf
    refine changeObject_frame (fun g _ g' hg => ?_) hxy
    obtain ⟨g₁, hback, hforward⟩ := bind_eq_ok.mp hg
    have hstack : ∀ x y, changeItems (fun location => .ok (change location)) x = .ok y →
        ArrayFrame LocationFrame x y :=
      fun x y hxy => changeItems_frame (fun a _ b hab => by cases hab; exact h a) hxy
    exact (changeField_frame chains_history (fun x _ => hstack x) hback).trans chains_history
      (changeField_frame chains_history (fun x _ => hstack x) hforward)

-- ==== tabs of a workspace

/-- The items of an array under a key. -/
def Value.items (value : Value) (key : String) : List Value :=
  ((value.get key).bind asArray).getD []

/-- The tabs that a migration walks to. -/
def Value.tabs (value : Value) : List Value :=
  (value.items "panes").flatMap fun pane => pane.items "tabs"

section Walks

variable {walk : Value → Migrated Value} {fields fields' : Fields} {key : String} {e : Unread}
  {value : Value} {α β : Type}

theorem items_object (fields : Fields) (key : String) : (object fields).items key
    = ((get fields key).bind asArray).getD [] := rfl

theorem items_of_changeField (h : changeField key (changeItems walk) fields = .ok fields')
    {x' : Value} (hx' : x' ∈ (object fields').items key) :
    ∃ x ∈ (object fields).items key, walk x = .ok x' := by
  unfold changeField at h
  rw [items_object] at hx' ⊢
  split at h
  case h_1 hnone =>
    cases h
    rw [hnone] at hx'
    cases hx'
  case h_2 value hget =>
    obtain ⟨value', hvalue, heq⟩ := bind_eq_ok.mp h
    cases heq
    rw [get_put, if_pos rfl] at hx'
    rw [hget]
    cases value with
    | array items =>
      obtain ⟨items', hitems, heq⟩ := bind_eq_ok.mp hvalue
      cases heq
      exact paired_right (forall₂_of_mapM hitems) hx'
    | _ =>
      cases hvalue
      cases hx'

theorem mapM_error {g : α → Migrated β} {l : List α}
    (h : l.mapM g = .error e) : ∃ x ∈ l, g x = .error e := by
  induction l with
  | nil => cases h
  | cons x rest ih =>
    rw [List.mapM_cons] at h
    cases hx : g x with
    | error e' =>
      rw [hx] at h
      cases h
      exact ⟨x, List.mem_cons_self, hx⟩
    | ok y =>
      rw [hx] at h
      cases hrest : rest.mapM g with
      | error e' =>
        rw [hrest] at h
        cases h
        obtain ⟨z, hz, hfails⟩ := ih hrest
        exact ⟨z, List.mem_cons_of_mem _ hz, hfails⟩
      | ok ys =>
        rw [hrest] at h
        cases h

theorem bind_eq_error {x : Migrated α} {g : α → Migrated β}
    (h : x >>= g = .error e) : x = .error e ∨ ∃ a, x = .ok a ∧ g a = .error e := by
  cases x with
  | error e' =>
    cases h
    exact .inl rfl
  | ok a => exact .inr ⟨a, rfl, h⟩

theorem changeField_error (h : changeField key walk fields = .error e) :
    ∃ value, get fields key = some value ∧ walk value = .error e := by
  unfold changeField at h
  split at h
  case h_1 => cases h
  case h_2 value hget =>
    obtain herror | ⟨_, -, hok⟩ := bind_eq_error h
    · exact ⟨value, hget, herror⟩
    · cases hok

theorem changeItems_error (h : changeItems walk value = .error e) :
    ∃ x ∈ value.asArray.getD [], walk x = .error e := by
  cases value with
  | array items =>
    obtain herror | ⟨_, -, hok⟩ := bind_eq_error h
    · exact mapM_error herror
    · cases hok
  | _ => cases h

theorem changeObject_error {change : Fields → Migrated Fields}
    (h : changeObject change value = .error e) :
    ∃ fields, value = .object fields ∧ change fields = .error e := by
  cases value with
  | object fields =>
    obtain herror | ⟨_, -, hok⟩ := bind_eq_error h
    · exact ⟨fields, rfl, herror⟩
    · cases hok
  | _ => cases h

theorem items_error (h : changeField key (changeItems walk) fields = .error e) :
    ∃ x ∈ (object fields).items key, walk x = .error e := by
  obtain ⟨value, hget, h⟩ := changeField_error h
  obtain ⟨x, hx, h⟩ := changeItems_error h
  rw [items_object, hget]
  exact ⟨x, hx, h⟩

theorem changeItems_ok {change : Value → Value} (value : Value) (e : Unread) :
    changeItems (fun x => .ok (change x)) value ≠ .error e := by
  intro h
  obtain ⟨x, -, h⟩ := changeItems_error h
  cases h

end Walks

-- ==== migrations

theorem items_orInsert (h : key ≠ other) (value : Value)
    (fields : Fields) : (object (orInsert other value fields)).items key
      = (object fields).items key := by
  rw [items_object, items_object, get_orInsert_of_ne h]

theorem items_put (h : key ≠ other) (value : Value)
    (fields : Fields) : (object (put fields other value)).items key
      = (object fields).items key := by
  rw [items_object, items_object, get_put, if_neg h]

def Value.TabsAreObjects (value : Value) : Prop := ∀ tab ∈ value.tabs, tab.IsObject

variable {value value' : Value}

theorem indexed_object (h : changeTabLocations change tab = .ok tab') : tab'.IsObject := by
  obtain ⟨next, hnext, h⟩ := bind_eq_ok.mp h
  have hobject : next.IsObject := by
    cases tab <;> cases hnext <;> exact ⟨_, rfl⟩
  obtain ⟨fields, rfl⟩ := hobject
  obtain ⟨fields', -, heq⟩ := bind_eq_ok.mp h
  cases heq
  exact ⟨fields', rfl⟩

theorem indexed_error {tab : Value} (h : changeTabLocations change tab = .error e) :
    e = .panicked ∧ ¬tab.IsObject := by
  obtain herror | ⟨next, -, h⟩ := bind_eq_error h
  · cases tab with
    | object | null => cases herror
    | _ =>
      cases herror
      exact ⟨rfl, fun hobject => by cases hobject.choose_spec⟩
  · -- the history is walked without a failure
    obtain ⟨tab, -, h⟩ := changeObject_error h
    obtain ⟨history, -, h⟩ := changeField_error h
    obtain ⟨history, -, h⟩ := changeObject_error h
    obtain hback | ⟨_, -, hforward⟩ := bind_eq_error h
    · obtain ⟨value, -, h⟩ := changeField_error hback
      exact absurd h (changeItems_ok value e)
    · obtain ⟨value, -, h⟩ := changeField_error hforward
      exact absurd h (changeItems_ok value e)

theorem migrateLocations_error (h : migrateLocations version change (.object fields) = .error e) :
    e = .panicked ∧ ¬(object fields).TabsAreObjects := by
  obtain h | ⟨_, -, hok⟩ := bind_eq_error h
  · obtain ⟨pane, hpane, h⟩ := items_error h
    rw [items_put (by decide)] at hpane
    obtain ⟨fields', rfl, hwalk⟩ := changeObject_error h
    obtain ⟨tab, htab, htabWalk⟩ := items_error hwalk
    obtain ⟨rfl, hstray⟩ := indexed_error htabWalk
    exact ⟨rfl, fun hobjects => hstray (hobjects tab (List.mem_flatMap.mpr ⟨_, hpane, htab⟩))⟩
  · cases hok

theorem pane_of_walk {walk : Value → Migrated Value} {prepare : Fields → Fields}
    (hprepare : ∀ f, (object (prepare f)).items "tabs" = (object f).items "tabs")
    {pane pane' : Value} (h : changeObject (fun f =>
      changeField "tabs" (changeItems walk) (prepare f)) pane = .ok pane')
    {tab' : Value} (htab' : tab' ∈ pane'.items "tabs") :
    ∃ tab ∈ pane.items "tabs", walk tab = .ok tab' := by
  cases pane with
  | object f =>
    obtain ⟨f', hfields, heq⟩ := bind_eq_ok.mp h
    cases heq
    obtain ⟨tab, htab, hwalk⟩ := items_of_changeField hfields htab'
    rw [hprepare] at htab
    exact ⟨tab, htab, hwalk⟩
  | _ =>
    cases h
    cases htab'

theorem migrateLocations_tabs (h : migrateLocations version change value = .ok value') :
    value'.TabsAreObjects := by
  cases value with
  | object fields =>
    obtain ⟨fields', hfields, heq⟩ := bind_eq_ok.mp h
    cases heq
    intro tab' htab'
    obtain ⟨pane', hpane', htab'⟩ := List.mem_flatMap.mp htab'
    obtain ⟨pane, -, hpaneWalk⟩ := items_of_changeField hfields hpane'
    obtain ⟨tab, -, hwalk⟩ := @pane_of_walk _ id (fun _ => rfl) _ _ hpaneWalk _ htab'
    exact indexed_object hwalk
  | _ => cases h

theorem migrateLocations_frame (h : ∀ location, LocationFrame location (change location))
    (hobjects : (object fields).TabsAreObjects)
    (hmigrate : migrateLocations version change (.object fields) = .ok value') :
    ObjectFrame workspaceField (.object fields) value' := by
  obtain ⟨fields', hfields, heq⟩ := bind_eq_ok.mp hmigrate
  cases heq
  have hversion : FieldsFrame workspaceField fields
      (put fields "schema_version" (.natural version)) :=
    put_frame chains_workspace fun _ _ => trivial
  refine .object (hversion.trans chains_workspace
    (changeField_frame chains_workspace (fun panes hpanes panes' hchanged => ?_) hfields))
  refine changeItems_frame (fun pane hpane pane' hpaneWalk => ?_) hchanged
  refine changeObject_frame (fun f hf f' hfieldsWalk => ?_) hpaneWalk
  subst hf
  refine changeField_frame chains_pane (fun tabs htabs tabs' htabsWalk => ?_) hfieldsWalk
  refine changeItems_frame (fun tab htab tab' htabWalk => ?_) htabsWalk
  refine tab_frame h (hobjects tab (List.mem_flatMap.mpr ⟨.object f, ?_, ?_⟩)) htabWalk
  · rw [← items_put (show "panes" ≠ "schema_version" by decide) (.natural version),
      items_object, hpanes]
    exact hpane
  · rw [items_object, htabs]
    exact htab

variable {now : String}

theorem migrateV0_error : migrateV0ToV1 now (.object fields) ≠ .error e := by
  intro h
  obtain h | ⟨_, -, hok⟩ := bind_eq_error h
  · obtain ⟨pane, -, h⟩ := items_error h
    obtain ⟨f, -, h⟩ := changeObject_error h
    obtain ⟨tab, -, h⟩ := items_error h
    obtain ⟨g, -, h⟩ := changeObject_error h
    cases h
  · cases hok

theorem migrateV0_tabs (h : migrateV0ToV1 now (.object fields) = .ok value')
    (hobjects : (object fields).TabsAreObjects) : value'.TabsAreObjects := by
  obtain ⟨fields', hfields, heq⟩ := bind_eq_ok.mp h
  cases heq
  intro tab' htab'
  obtain ⟨pane', hpane', htab'⟩ := List.mem_flatMap.mp htab'
  obtain ⟨pane, hpane, hpaneWalk⟩ := items_of_changeField hfields hpane'
  rw [items_orInsert (by decide), items_orInsert (by decide), items_orInsert (by decide),
    items_orInsert (by decide), items_put (by decide)] at hpane
  have hprepare : ∀ f, (object (orInsert "default_view" (defaultViewOf pane)
      (orInsert "title" .null f))).items "tabs" = (object f).items "tabs" := by
    intro f
    rw [items_orInsert (by decide), items_orInsert (by decide)]
  obtain ⟨tab, htab, hwalk⟩ := pane_of_walk hprepare hpaneWalk htab'
  obtain ⟨f, rfl⟩ := hobjects tab (List.mem_flatMap.mpr ⟨pane, hpane, htab⟩)
  cases hwalk
  exact ⟨_, rfl⟩

theorem migrateV0_frame (h : migrateV0ToV1 now (.object fields) = .ok value') :
    ObjectFrame workspaceField (.object fields) value' := by
  obtain ⟨fields', hfields, heq⟩ := bind_eq_ok.mp h
  cases heq
  have hversion : FieldsFrame workspaceField fields (put fields "schema_version" (.natural 1)) :=
    put_frame chains_workspace fun _ _ => trivial
  have hadded := fun key value (f : Fields) =>
    @orInsert_frame workspaceField f chains_workspace key value
  refine .object (FieldsFrame.trans chains_workspace (hversion.trans chains_workspace
    ((hadded _ _ _).trans chains_workspace ((hadded _ _ _).trans chains_workspace
      ((hadded _ _ _).trans chains_workspace (hadded _ _ _)))))
    (changeField_frame chains_workspace (fun panes _ panes' hchanged => ?_) hfields))
  refine changeItems_frame (fun pane _ pane' hpaneWalk => ?_) hchanged
  refine changeObject_frame (fun f _ f' hfieldsWalk => ?_) hpaneWalk
  refine ((orInsert_frame chains_pane _ _).trans chains_pane
    (orInsert_frame chains_pane _ _)).trans chains_pane
    (changeField_frame chains_pane (fun tabs _ tabs' htabsWalk => ?_) hfieldsWalk)
  refine changeItems_frame (fun tab _ tab' htabWalk => ?_) htabsWalk
  refine changeObject_frame (fun g _ g' hg => ?_) htabWalk
  cases hg
  exact (orInsert_frame chains_tab _ _).trans chains_tab (orInsert_frame chains_tab _ _)

-- ==== rounds

variable {now rounds : Nat}

theorem migrateFrom_object (hversion : version < 3)
    (h : migrateFrom json now version (.object fields) = .ok value') : value'.IsObject := by
  obtain rfl | rfl | rfl : version = 0 ∨ version = 1 ∨ version = 2 := by omega
  all_goals
    obtain ⟨f, -, heq⟩ := bind_eq_ok.mp h
    cases heq
    exact ⟨f, rfl⟩

theorem migrateFrom_error (hversion : version < 3)
    (h : migrateFrom json now version (.object fields) = .error e) :
    e = .panicked ∧ ¬(object fields).TabsAreObjects := by
  obtain rfl | rfl | rfl : version = 0 ∨ version = 1 ∨ version = 2 := by omega
  · exact absurd h migrateV0_error
  · exact migrateLocations_error h
  · exact migrateLocations_error h

theorem migrateFrom_frame (hversion : version < 3) (hobjects : (object fields).TabsAreObjects)
    (h : migrateFrom json now version (.object fields) = .ok value') :
    ObjectFrame workspaceField (.object fields) value' ∧ value'.TabsAreObjects := by
  obtain rfl | rfl | rfl : version = 0 ∨ version = 1 ∨ version = 2 := by omega
  · exact ⟨migrateV0_frame h, migrateV0_tabs h hobjects⟩
  · have h : migrateLocations 2 normalizeLocalLocation (.object fields) = .ok value' := h
    exact ⟨migrateLocations_frame normalize_frame hobjects h, migrateLocations_tabs h⟩
  · have h : migrateLocations 3 (repairNativePathLocation json.isUuid) (.object fields)
        = .ok value' := h
    exact ⟨migrateLocations_frame (repair_frame _) hobjects h, migrateLocations_tabs h⟩

theorem migrateRounds_error (hrounds : version + rounds = 3)
    (h : migrateRounds json now rounds version (.object fields) = .error e) : e = .panicked := by
  induction rounds generalizing version fields with
  | zero => cases h
  | succ rounds ih =>
    obtain h | ⟨next, hnext, h⟩ := bind_eq_error h
    · exact (migrateFrom_error (by omega) h).1
    · obtain ⟨next, rfl⟩ := migrateFrom_object (by omega) hnext
      exact ih (by omega) h

theorem migrateRounds_tabs (hrounds : version + (rounds + 1) = 3)
    (h : migrateRounds json now (rounds + 1) version value = .ok value') :
    value'.TabsAreObjects := by
  induction rounds generalizing version value with
  | zero =>
    obtain rfl : version = 2 := by omega
    obtain ⟨next, hnext, h⟩ := bind_eq_ok.mp h
    cases h
    exact migrateLocations_tabs hnext
  | succ rounds ih =>
    obtain ⟨next, -, h⟩ := bind_eq_ok.mp h
    exact ih (by omega) h

theorem migrateRounds_frame (hrounds : version + rounds = 3)
    (hobjects : (object fields).TabsAreObjects) :
    ∃ value', migrateRounds json now rounds version (.object fields) = .ok value'
      ∧ ObjectFrame workspaceField (.object fields) value' := by
  induction rounds generalizing version fields with
  | zero => exact ⟨_, rfl, .same _⟩
  | succ rounds ih =>
    cases hnext : migrateFrom json now version (.object fields) with
    | error e => exact absurd hobjects (migrateFrom_error (by omega) hnext).2
    | ok next =>
      obtain ⟨hframe, hobjects'⟩ := migrateFrom_frame (by omega) hobjects hnext
      obtain ⟨next, rfl⟩ := migrateFrom_object (by omega) hnext
      obtain ⟨value', hrest, hframe'⟩ := @ih _ (version + 1) (by omega) hobjects'
      refine ⟨value', bind_eq_ok.mpr ⟨_, hnext, hrest⟩, ?_⟩
      exact (chains_object chains_workspace).trans _ _ _ hframe hframe'

-- ==== the migration

theorem items_frame (h : ObjectFrame F value value') (hkey : F key = ArrayFrame R) (hR : ∀ a, R a a)
    {x : Value} (hx : x ∈ value.items key) : ∃ x' ∈ value'.items key, R x x' := by
  cases h with
  | same => exact ⟨x, hx, hR x⟩
  | @object fields fields' h =>
    rw [items_object] at hx ⊢
    cases hget : get fields key with
    | none =>
      simp [hget] at hx
    | some y =>
      rw [hget] at hx
      obtain ⟨y', hget', hframe⟩ := h key y hget
      rw [hkey] at hframe
      rw [hget']
      cases hframe with
      | same => exact ⟨x, hx, hR x⟩
      | array hitems => exact paired_left hitems hx

theorem stray_tab_stays (h : ObjectFrame workspaceField value value') {tab : Value}
    (htab : tab ∈ value.tabs) (hstray : ¬tab.IsObject) : tab ∈ value'.tabs := by
  obtain ⟨pane, hpane, htab⟩ := List.mem_flatMap.mp htab
  obtain ⟨pane', hpane', hframe⟩ := items_frame h rfl (chains_object chains_pane).refl hpane
  obtain ⟨tab', htab', hframe'⟩ := items_frame hframe rfl (chains_object chains_tab).refl htab
  cases hframe' with
  | same => exact List.mem_flatMap.mpr ⟨pane', hpane', htab'⟩
  | object => exact absurd ⟨_, rfl⟩ hstray

/-- What is claimed of the migration of a value: it does not panic, and
where it returns one, that one is of the current version, is migrated to
itself, and differs within the frame. -/
structure MigratesWell (json : Json) (now : Nat) (value : Value) : Prop where
  returns : migrateWorkspaceJson json now value ≠ .error .panicked
  result : ∀ value', migrateWorkspaceJson json now value = .ok value' →
    value'.schemaVersion = currentSchemaVersion
      ∧ (∀ later, migrateWorkspaceJson json later value' = .ok value')
      ∧ ObjectFrame workspaceField value value'

theorem migrate_current (h : value.schemaVersion = currentSchemaVersion) :
    migrateWorkspaceJson json now value = .ok value := by
  unfold migrateWorkspaceJson
  rw [h]
  rfl

theorem migrate_version (h : migrateWorkspaceJson json now value = .ok value') :
    value'.schemaVersion = currentSchemaVersion := by
  unfold migrateWorkspaceJson at h
  dsimp only at h
  obtain ⟨hle, h⟩ := passed h nofun
  rw [migrateRounds_version rfl h]
  omega

theorem migrate_old (hold : value.schemaVersion < 3) :
    migrateWorkspaceJson json now value = migrateRounds json now
      (2 - value.schemaVersion + 1) value.schemaVersion value := by
  unfold migrateWorkspaceJson currentSchemaVersion
  rw [if_neg (by omega), show 3 - value.schemaVersion = 2 - value.schemaVersion + 1 by omega]

theorem migrates_well_object (hold : (object fields).schemaVersion < 3) :
    MigratesWell json now (.object fields) ↔ (object fields).TabsAreObjects := by
  have hrounds : (object fields).schemaVersion
      + (2 - (object fields).schemaVersion + 1) = 3 := by omega
  constructor
  · intro hwell tab htab
    by_contra hstray
    cases hmigrate : migrateWorkspaceJson json now (.object fields) with
    | error e =>
      refine hwell.returns (hmigrate.trans ?_)
      rw [migrate_old hold] at hmigrate
      rw [migrateRounds_error hrounds hmigrate]
    | ok value' =>
      have hframe := (hwell.result value' hmigrate).2.2
      rw [migrate_old hold] at hmigrate
      exact hstray (migrateRounds_tabs hrounds hmigrate tab (stray_tab_stays hframe htab hstray))
  · intro hobjects
    obtain ⟨value', hmigrate, hframe⟩ := @migrateRounds_frame json _ _ now _ hrounds hobjects
    rw [← migrate_old hold] at hmigrate
    refine ⟨by rw [hmigrate]; simp, fun value'' hmigrate' => ?_⟩
    rw [hmigrate] at hmigrate'
    cases hmigrate'
    have hversion := migrate_version hmigrate
    exact ⟨hversion, fun later => migrate_current hversion, hframe⟩

/-- The migration is as claimed exactly where there is nothing to migrate
or every tab is an object. -/
theorem migrates_well_iff (json : Json) (now : Nat) (value : Value) :
    MigratesWell json now value
      ↔ currentSchemaVersion ≤ value.schemaVersion ∨ value.TabsAreObjects := by
  by_cases hold : value.schemaVersion < 3
  · have hnewer : ¬currentSchemaVersion ≤ value.schemaVersion := Nat.not_le.mpr hold
    rw [or_iff_right hnewer]
    cases value with
    | object fields => exact migrates_well_object hold
    | _ =>
      refine iff_of_true ⟨fun hpanics => ?_, fun value' hmigrate => ?_⟩ fun tab htab => ?_
      · cases hpanics
      · cases hmigrate
      · cases htab
  · -- a newer version is refused, and the current one stays
    have hsame : migrateWorkspaceJson json now value = .error .rejected
        ∨ migrateWorkspaceJson json now value = .ok value := by
      by_cases hcurrent : value.schemaVersion = currentSchemaVersion
      · exact .inr (migrate_current hcurrent)
      · exact .inl (if_pos (Nat.lt_of_le_of_ne (Nat.not_lt.mp hold) (Ne.symm hcurrent)))
    refine iff_of_true ⟨?_, fun value' hmigrate => ?_⟩ (.inl (Nat.not_lt.mp hold))
    · obtain h | h := hsame <;> simp [h]
    · have hversion := migrate_version hmigrate
      refine ⟨hversion, fun later => migrate_current hversion, ?_⟩
      obtain h | h := hsame
      · cases h.symm.trans hmigrate
      · cases h.symm.trans hmigrate
        exact .same _

-- ==== the samples

/-- A tab that is a number stops the migration. -/
theorem odd_tab_panics :
    ¬∀ now value, migrateWorkspaceJson plainJson now value ≠ .error .panicked :=
  fun hclaim => hclaim 0 oddTab rfl

end FileManager.Workspaces
