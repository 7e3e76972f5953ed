import Mathlib.Data.List.Basic
import Mathlib.Data.List.Nodup

/-! Settings in sections, kept in order. Names and keys count as the same when they fold to
the same, and only the first of several is found. -/
namespace SysHelo.Sections

variable {κ φ ν : Type}

abbrev Settings (κ ν : Type) := List (κ × ν)

/-- The settings above every section, and those of each section. A section without a name is
not found. -/
@[ext]
structure Document (κ ν : Type) where
  top : Settings κ ν
  sections : List (Option κ × Settings κ ν)
  deriving DecidableEq

variable [DecidableEq φ] (fold : κ → φ)

def lookup (key : κ) (settings : Settings κ ν) : Option ν :=
  (settings.find? fun e => fold e.1 = fold key).map Prod.snd

/-- A new value takes the place of the first old one, or comes last. -/
def insert (key : κ) (value : ν) : Settings κ ν → Settings κ ν
  | [] => [(key, value)]
  | e :: rest => if fold e.1 = fold key then (key, value) :: rest else e :: insert key value rest

def erase (key : κ) (settings : Settings κ ν) : Settings κ ν :=
  settings.eraseP fun e => fold e.1 = fold key

/-- The first of the elements that meet a condition is changed. -/
def modifyFirst {α : Type} (p : α → Bool) (f : α → α) : List α → List α
  | [] => []
  | a :: rest => if p a then f a :: rest else a :: modifyFirst p f rest

def isNamed (name : κ) (s : Option κ × Settings κ ν) : Bool := s.1.map fold = some (fold name)

namespace Document

/-- The settings above every section when no name is given. -/
def settings (name : Option κ) (doc : Document κ ν) : Option (Settings κ ν) :=
  match name with
  | none => some doc.top
  | some name => (doc.sections.find? (isNamed fold name)).map Prod.snd

def get (name : Option κ) (key : κ) (doc : Document κ ν) : Option ν :=
  (doc.settings fold name).bind (lookup fold key)

def modify (name : Option κ) (f : Settings κ ν → Settings κ ν) (doc : Document κ ν) : Document κ ν :=
  match name with
  | none => { doc with top := f doc.top }
  | some name => { doc with sections := modifyFirst (isNamed fold name) (Prod.map id f) doc.sections }

/-- A section that is not there comes last. -/
def put (name : Option κ) (key : κ) (value : ν) (doc : Document κ ν) : Document κ ν :=
  if (doc.settings fold name).isSome then doc.modify fold name (insert fold key value)
  else { doc with sections := doc.sections ++ [(name, [(key, value)])] }

def eraseKey (name : Option κ) (key : κ) (doc : Document κ ν) : Document κ ν :=
  doc.modify fold name (erase fold key)

def eraseSection (name : κ) (doc : Document κ ν) : Document κ ν :=
  { doc with sections := doc.sections.eraseP (isNamed fold name) }

/-- New settings take the place of a section, name and all, or come last under the name. A section
without settings is erased. -/
def putSection (name : κ) (new : Settings κ ν) (doc : Document κ ν) : Document κ ν :=
  if new.isEmpty then doc.eraseSection fold name
  else if (doc.settings fold (some name)).isSome then
    { doc with sections := modifyFirst (isNamed fold name) (fun _ => (some name, new)) doc.sections }
  else { doc with sections := doc.sections ++ [(some name, new)] }

end Document

section Keys
variable {fold} {key other : κ} {value : ν}

@[simp] theorem lookup_nil : lookup fold key ([] : Settings κ ν) = none := rfl

theorem lookup_cons (e : κ × ν) (rest : Settings κ ν) :
    lookup fold key (e :: rest) = if fold e.1 = fold key then some e.2 else lookup fold key rest := by
  simp only [lookup, List.find?_cons]
  by_cases same : fold e.1 = fold key
  · simp [same]
  · simp [same]

theorem lookup_insert (settings : Settings κ ν) :
    lookup fold other (insert fold key value settings) =
      if fold other = fold key then some value else lookup fold other settings := by
  induction settings with
  | nil => simp [insert, lookup_cons, eq_comm]
  | cons e rest ih =>
    by_cases found : fold e.1 = fold key
    · rw [insert, if_pos found, lookup_cons, lookup_cons, found]
      by_cases same : fold other = fold key
      · simp [same]
      · simp [same, Ne.symm same]
    · simp only [insert, if_neg found, lookup_cons, ih]
      by_cases same : fold other = fold key
      · simp [same, found]
      · simp [same]

theorem erase_cons (e : κ × ν) (rest : Settings κ ν) :
    erase fold key (e :: rest) = if fold e.1 = fold key then rest else e :: erase fold key rest := by
  simp only [erase, List.eraseP_cons]
  by_cases same : fold e.1 = fold key
  · simp [same]
  · simp [same]

theorem lookup_erase_other (different : fold other ≠ fold key) (settings : Settings κ ν) :
    lookup fold other (erase fold key settings) = lookup fold other settings := by
  induction settings with
  | nil => rfl
  | cons e rest ih =>
    rw [erase_cons, lookup_cons]
    by_cases found : fold e.1 = fold key
    · rw [if_pos found, if_neg (by rw [found]; exact Ne.symm different)]
    · rw [if_neg found, lookup_cons, ih]

theorem lookup_eq_none {settings : Settings κ ν} :
    lookup fold key settings = none ↔ fold key ∉ settings.map fun e => fold e.1 := by
  induction settings with
  | nil => simp
  | cons e rest ih =>
    rw [lookup_cons, List.map_cons, List.mem_cons, not_or, ← ih]
    by_cases found : fold e.1 = fold key
    · simp [found]
    · simp [found, Ne.symm found]

theorem lookup_append {left right : Settings κ ν} (absent : lookup fold key left = none) :
    lookup fold key (left ++ right) = lookup fold key right := by
  induction left with
  | nil => rfl
  | cons e left ih =>
    rw [lookup_cons] at absent
    by_cases found : fold e.1 = fold key
    · simp [found] at absent
    · rw [if_neg found] at absent
      rw [List.cons_append, lookup_cons, if_neg found, ih absent]

theorem insert_append {left right : Settings κ ν} (absent : lookup fold key left = none) :
    insert fold key value (left ++ right) = left ++ insert fold key value right := by
  induction left with
  | nil => rfl
  | cons e left ih =>
    rw [lookup_cons] at absent
    by_cases found : fold e.1 = fold key
    · simp [found] at absent
    · rw [if_neg found] at absent
      rw [List.cons_append, insert, if_neg found, ih absent, List.cons_append]

theorem erase_append {left right : Settings κ ν} (absent : lookup fold key left = none) :
    erase fold key (left ++ right) = left ++ erase fold key right := by
  induction left with
  | nil => rfl
  | cons e left ih =>
    rw [lookup_cons] at absent
    by_cases found : fold e.1 = fold key
    · simp [found] at absent
    · rw [if_neg found] at absent
      rw [List.cons_append, erase_cons, if_neg found, ih absent, List.cons_append]

variable (fold) in
/-- No key is there twice. -/
def DistinctKeys (settings : Settings κ ν) : Prop := (settings.map fun e => fold e.1).Nodup

theorem mem_keys_insert {settings : Settings κ ν} {k : φ}
    (member : k ∈ (insert fold key value settings).map fun e => fold e.1) :
    k = fold key ∨ k ∈ settings.map fun e => fold e.1 := by
  induction settings with
  | nil => simpa [insert] using member
  | cons e rest ih =>
    by_cases found : fold e.1 = fold key
    · rw [insert, if_pos found, List.map_cons, List.mem_cons] at member
      rcases member with same | inside
      · exact .inl same
      · exact .inr (by simp only [List.map_cons, List.mem_cons]; exact .inr inside)
    · rw [insert, if_neg found, List.map_cons, List.mem_cons] at member
      rw [List.map_cons, List.mem_cons]
      rcases member with same | inside
      · exact .inr (.inl same)
      · exact (ih inside).imp id .inr

theorem DistinctKeys.insert {settings : Settings κ ν} (distinct : DistinctKeys fold settings) :
    DistinctKeys fold (insert fold key value settings) := by
  induction settings with
  | nil => simp [DistinctKeys, Sections.insert]
  | cons e rest ih =>
    rw [DistinctKeys, List.map_cons, List.nodup_cons] at distinct
    obtain ⟨fresh, others⟩ := distinct
    by_cases found : fold e.1 = fold key
    · rw [Sections.insert, if_pos found, DistinctKeys, List.map_cons, List.nodup_cons]
      exact ⟨found ▸ fresh, others⟩
    · rw [Sections.insert, if_neg found, DistinctKeys, List.map_cons, List.nodup_cons]
      refine ⟨fun member => ?_, ih others⟩
      rcases mem_keys_insert member with same | inside
      · exact found same
      · exact fresh inside

theorem DistinctKeys.erase {settings : Settings κ ν} (distinct : DistinctKeys fold settings) :
    DistinctKeys fold (erase fold key settings) :=
  distinct.sublist ((List.eraseP_sublist).map _)

/-- An erased key is gone when it was there once. -/
theorem lookup_erase_same {settings : Settings κ ν} (distinct : DistinctKeys fold settings)
    (same : fold other = fold key) : lookup fold other (erase fold key settings) = none := by
  rw [lookup_eq_none, same]
  induction settings with
  | nil => simp [Sections.erase]
  | cons e rest ih =>
    rw [DistinctKeys, List.map_cons, List.nodup_cons] at distinct
    rw [erase_cons]
    by_cases found : fold e.1 = fold key
    · rw [if_pos found, ← found]
      exact distinct.1
    · rw [if_neg found, List.map_cons, List.mem_cons, not_or]
      exact ⟨Ne.symm found, ih distinct.2⟩

end Keys

section Changes
variable {fold} {name other : Option κ} {f : Settings κ ν → Settings κ ν} {doc : Document κ ν}

/-- Whether two names, or none, are those of the same section. -/
def SameSection (fold : κ → φ) (left right : Option κ) : Prop := left.map fold = right.map fold

instance (left right : Option κ) : Decidable (SameSection fold left right) :=
  inferInstanceAs (Decidable (_ = _))

theorem isNamed_congr {left right : κ} (same : fold left = fold right) :
    isNamed (ν := ν) fold left = isNamed fold right := by
  funext s
  simp [isNamed, same]

theorem Document.settings_congr (same : SameSection fold name other) :
    doc.settings fold name = doc.settings fold other := by
  cases name with
  | none =>
    cases other with
    | none => rfl
    | some other => simp [SameSection] at same
  | some name =>
    cases other with
    | none => simp [SameSection] at same
    | some other =>
      simp only [Document.settings, isNamed_congr
        (show fold name = fold other by simpa [SameSection] using same)]

theorem Document.get_congr {key k : κ} (same : SameSection fold other name) (sameKey : fold k = fold key) :
    doc.get fold other k = doc.get fold name key := by
  have keys : lookup (ν := ν) fold k = lookup fold key := by
    funext settings
    simp only [lookup, sameKey]
  rw [Document.get, Document.get, Document.settings_congr same, keys]

theorem find?_modifyFirst_same {α : Type} {p : α → Bool} {f : α → α} (stays : ∀ a, p a → p (f a))
    (as : List α) : (modifyFirst p f as).find? p = (as.find? p).map f := by
  induction as with
  | nil => rfl
  | cons a rest ih =>
    by_cases found : p a
    · simp [modifyFirst, found, stays a found]
    · simp [modifyFirst, found, ih]

theorem find?_modifyFirst_other {α : Type} {p q : α → Bool} {f : α → α}
    (apart : ∀ a, p a → ¬ q a ∧ ¬ q (f a)) (as : List α) : (modifyFirst p f as).find? q = as.find? q := by
  induction as with
  | nil => rfl
  | cons a rest ih =>
    by_cases found : p a
    · obtain ⟨missed, missed'⟩ := apart a found
      simp [modifyFirst, found, missed, missed']
    · by_cases other : q a
      · simp [modifyFirst, found, other]
      · simp [modifyFirst, found, other, ih]

theorem modifyFirst_append {α : Type} {p : α → Bool} {f : α → α} {front back : List α} {a : α}
    (absent : front.find? p = none) (found : p a) :
    modifyFirst p f (front ++ a :: back) = front ++ f a :: back := by
  induction front with
  | nil => simp [modifyFirst, found]
  | cons b front ih =>
    rw [List.find?_cons] at absent
    split at absent
    · contradiction
    · rename_i missed
      simp [modifyFirst, missed, ih absent]

theorem modifyFirst_absent {α : Type} {p : α → Bool} {f : α → α} {as : List α} (absent : as.find? p = none) :
    modifyFirst p f as = as := by
  induction as with
  | nil => rfl
  | cons a rest ih =>
    rw [List.find?_cons] at absent
    split at absent
    · contradiction
    · rename_i missed
      simp [modifyFirst, missed, ih absent]

theorem isNamed_apart {left right : κ} (different : fold left ≠ fold right) (s : Option κ × Settings κ ν)
    (named : isNamed fold left s) : ¬ isNamed fold right s := by
  simp only [isNamed, decide_eq_true_eq] at named ⊢
  rw [named, Option.some.injEq]
  exact different

namespace Document

theorem settings_modify_same (same : SameSection fold other name) :
    (doc.modify fold name f).settings fold other = (doc.settings fold name).map f := by
  rw [settings_congr same]
  cases name with
  | none => rfl
  | some name =>
    have stays : ∀ s, isNamed fold name s → isNamed fold name (Prod.map id f s) := fun _ found => found
    simp only [settings, modify, find?_modifyFirst_same stays, Option.map_map]
    rfl

theorem settings_modify_other (different : ¬ SameSection fold other name) :
    (doc.modify fold name f).settings fold other = doc.settings fold other := by
  cases name with
  | none =>
    cases other with
    | none => exact absurd rfl different
    | some other => rfl
  | some name =>
    cases other with
    | none => rfl
    | some other =>
      have apart : fold name ≠ fold other := fun same => different (by simp [SameSection, same])
      have missed : ∀ s, isNamed fold name s → ¬ isNamed fold other s ∧ ¬ isNamed fold other
          (Prod.map id f s) :=
        fun s found => ⟨isNamed_apart apart s found, isNamed_apart apart s found⟩
      simp only [settings, modify, find?_modifyFirst_other missed]

theorem modify_absent (absent : doc.settings fold name = none) : doc.modify fold name f = doc := by
  cases name with
  | none => simp [settings] at absent
  | some name =>
    rw [settings, Option.map_eq_none_iff] at absent
    rw [modify, modifyFirst_absent absent]

theorem get_put (key k : κ) (value : ν) :
    (doc.put fold name key value).get fold other k =
      if SameSection fold other name ∧ fold k = fold key then some value else doc.get fold other k := by
  unfold put
  cases there : doc.settings fold name with
  | some settings =>
    rw [Option.isSome_some, if_pos rfl, get, get]
    by_cases same : SameSection fold other name
    · rw [settings_modify_same same, settings_congr same, there]
      simp only [Option.map_some, Option.bind_some, lookup_insert, same, true_and]
    · rw [settings_modify_other same, if_neg (fun both => same both.1)]
  | none =>
    rw [Option.isSome_none, if_neg Bool.false_ne_true, get, get]
    cases name with
    | none => simp [settings] at there
    | some name =>
      cases other with
      | none => simp [settings, SameSection]
      | some other =>
        simp only [settings, Option.map_eq_none_iff] at there
        by_cases same : fold other = fold name
        · simp [settings, SameSection, same, isNamed_congr same, List.find?_append, there, lookup_cons,
            isNamed, eq_comm]
        · have different : ¬ SameSection fold (some other) (some name) := by simp [SameSection, same]
          simp [settings, different, List.find?_append, isNamed, Ne.symm same]

theorem get_eraseKey_other {key k : κ} (different : ¬ (SameSection fold other name ∧ fold k = fold key)) :
    (doc.eraseKey fold name key).get fold other k = doc.get fold other k := by
  rw [eraseKey, get, get]
  by_cases same : SameSection fold other name
  · rw [settings_modify_same same, settings_congr same]
    cases doc.settings fold name with
    | none => rfl
    | some settings => exact lookup_erase_other (fun k => different ⟨same, k⟩) settings
  · rw [settings_modify_other same]

theorem settings_eraseSection_other {name : κ} (different : ¬ SameSection fold other (some name)) :
    (doc.eraseSection fold name).settings fold other = doc.settings fold other := by
  cases other with
  | none => rfl
  | some other =>
    simp only [settings, eraseSection]
    congr 1
    induction doc.sections with
    | nil => rfl
    | cons s rest ih =>
      by_cases found : isNamed fold name s
      · have apart : fold name ≠ fold other := fun same => different (by simp [SameSection, same])
        simp [found, isNamed_apart apart s found]
      · simp [found, List.find?_cons, ih]

theorem settings_putSection {name : κ} {new : Settings κ ν} (some : new ≠ []) :
    (doc.putSection fold name new).settings fold (.some name) = .some new := by
  have named : isNamed fold name (.some name, new) := by simp [isNamed]
  rw [putSection, if_neg (by simpa using some)]
  cases there : doc.settings fold (.some name) with
  | some old =>
    rw [Option.isSome_some, if_pos rfl]
    rw [settings, Option.map_eq_some_iff] at there ⊢
    obtain ⟨s, found, -⟩ := there
    exact ⟨_, by rw [find?_modifyFirst_same (fun _ _ => named), found]; rfl, rfl⟩
  | none =>
    rw [Option.isSome_none, if_neg Bool.false_ne_true]
    rw [settings, Option.map_eq_none_iff] at there
    rw [settings, List.find?_append, there, Option.none_or, List.find?_cons_of_pos named]
    rfl

theorem settings_putSection_other {name : κ} (different : ¬ SameSection fold other (some name))
    (new : Settings κ ν) : (doc.putSection fold name new).settings fold other = doc.settings fold other := by
  unfold putSection
  split_ifs with empty there
  · exact settings_eraseSection_other different
  · cases other with
    | none => rfl
    | some other =>
      have apart : fold name ≠ fold other := fun same => different (by simp [SameSection, same])
      have missed : ∀ s : Option κ × Settings κ ν, isNamed fold name s →
          ¬ isNamed fold other s ∧ ¬ isNamed fold other (some name, new) :=
        fun s found => ⟨isNamed_apart apart s found, isNamed_apart apart _ (by simp [isNamed])⟩
      simp only [settings, find?_modifyFirst_other missed]
  · cases other with
    | none => rfl
    | some other =>
      have apart : fold name ≠ fold other := fun same => different (by simp [SameSection, same])
      simp [settings, List.find?_append, isNamed, apart]

end Document

end Changes

structure Document.Distinct (doc : Document κ ν) : Prop where
  top : DistinctKeys fold doc.top
  keys : ∀ s ∈ doc.sections, DistinctKeys fold s.2
  names : (doc.sections.filterMap fun s => s.1.map fold).Nodup

section Distinct
variable {fold} {name other : Option κ} {doc : Document κ ν}

theorem modifyFirst_eq_map {α β : Type} {p : α → Bool} {f : α → α} {g : α → β} (stays : ∀ a, g (f a) = g a)
    (as : List α) : (modifyFirst p f as).map g = as.map g := by
  induction as with
  | nil => rfl
  | cons a rest ih =>
    unfold modifyFirst
    split
    · simp [stays]
    · simp [ih]

theorem mem_modifyFirst {α : Type} {p : α → Bool} {f : α → α} {as : List α} {a : α}
    (member : a ∈ modifyFirst p f as) : a ∈ as ∨ ∃ b ∈ as, p b ∧ a = f b := by
  induction as with
  | nil => simp [modifyFirst] at member
  | cons b rest ih =>
    unfold modifyFirst at member
    split at member
    · rename_i found
      rcases List.mem_cons.mp member with rfl | inside
      · exact .inr ⟨b, by simp, found, rfl⟩
      · exact .inl (by simp [inside])
    · rcases List.mem_cons.mp member with rfl | inside
      · exact .inl (by simp)
      · rcases ih inside with old | ⟨c, old, found, same⟩
        · exact .inl (by simp [old])
        · exact .inr ⟨c, by simp [old], found, same⟩

theorem find?_eraseP_named {name : κ} {sections : List (Option κ × Settings κ ν)}
    (names : (sections.filterMap fun s => s.1.map fold).Nodup) :
    (sections.eraseP (isNamed fold name)).find? (isNamed fold name) = none := by
  induction sections with
  | nil => rfl
  | cons s rest ih =>
    by_cases found : isNamed fold name s
    · simp only [List.eraseP_cons, found, cond_true, List.find?_eq_none]
      intro t inside again
      simp only [isNamed, decide_eq_true_eq] at found again
      simp only [List.filterMap_cons, found, List.nodup_cons] at names
      exact names.1 (List.mem_filterMap.mpr ⟨t, inside, again⟩)
    · have others : (rest.filterMap fun s => s.1.map fold).Nodup :=
        names.sublist ((List.sublist_cons_self s rest).filterMap _)
      rw [List.eraseP_cons_of_neg found, List.find?_cons_of_neg found, ih others]

namespace Document.Distinct

theorem of_settings (distinct : doc.Distinct fold) {settings : Settings κ ν}
    (there : doc.settings fold name = some settings) : DistinctKeys fold settings := by
  cases name with
  | none =>
    obtain rfl := Option.some.inj there
    exact distinct.top
  | some name =>
    obtain ⟨s, first, rfl⟩ := Option.map_eq_some_iff.mp there
    exact distinct.keys s (List.mem_of_find?_eq_some first)

theorem modify {f : Settings κ ν → Settings κ ν} (distinct : doc.Distinct fold)
    (keeps : ∀ settings, DistinctKeys fold settings → DistinctKeys fold (f settings)) :
    (doc.modify fold name f).Distinct fold := by
  cases name with
  | none => exact ⟨keeps _ distinct.top, distinct.keys, distinct.names⟩
  | some name =>
    refine ⟨distinct.top, fun s member => ?_, ?_⟩
    · rcases mem_modifyFirst member with old | ⟨t, old, -, rfl⟩
      · exact distinct.keys s old
      · exact keeps _ (distinct.keys t old)
    · have same := modifyFirst_eq_map (p := isNamed fold name) (f := Prod.map id f)
        (g := fun s : Option κ × Settings κ ν => s.1.map fold) (fun _ => rfl) doc.sections
      have names : ((doc.sections.map fun s => s.1.map fold).filterMap id).Nodup := by
        rw [List.filterMap_map]
        exact distinct.names
      rw [← same, List.filterMap_map] at names
      exact names

theorem put (distinct : doc.Distinct fold) (key : κ) (value : ν) :
    (doc.put fold name key value).Distinct fold := by
  unfold Document.put
  split
  · exact distinct.modify fun _ keys => keys.insert
  · rename_i missing
    cases name with
    | none => simp [Document.settings] at missing
    | some name =>
      refine ⟨distinct.top, fun s member => ?_, ?_⟩
      · rcases List.mem_append.mp member with old | new
        · exact distinct.keys s old
        · rw [List.mem_singleton.mp new]
          simp [DistinctKeys]
      · simp only [Document.settings, Option.isSome_map, List.find?_isSome, isNamed, decide_eq_true_eq,
          not_exists, not_and] at missing
        rw [List.filterMap_append, List.nodup_append]
        refine ⟨distinct.names, by simp, fun left old right new => ?_⟩
        obtain ⟨s, inside, found⟩ := List.mem_filterMap.mp old
        obtain rfl : right = fold name := by simpa using new
        intro same
        exact missing s inside (found.trans (congrArg some same))

theorem eraseKey (distinct : doc.Distinct fold) (key : κ) : (doc.eraseKey fold name key).Distinct fold :=
  distinct.modify fun _ keys => keys.erase

theorem eraseSection (distinct : doc.Distinct fold) (name : κ) : (doc.eraseSection fold name).Distinct fold :=
  ⟨distinct.top, fun s member => distinct.keys s (List.mem_of_mem_eraseP member),
    distinct.names.sublist (List.eraseP_sublist.filterMap _)⟩

theorem get_eraseKey (distinct : doc.Distinct fold) {key k : κ} :
    (doc.eraseKey fold name key).get fold other k =
      if SameSection fold other name ∧ fold k = fold key then none else doc.get fold other k := by
  by_cases both : SameSection fold other name ∧ fold k = fold key
  · rw [if_pos both, Document.eraseKey, Document.get, Document.settings_modify_same both.1]
    cases there : doc.settings fold name with
    | none => rfl
    | some settings => exact lookup_erase_same (distinct.of_settings there) both.2
  · rw [if_neg both, Document.get_eraseKey_other both]

theorem get_eraseSection (distinct : doc.Distinct fold) {name : κ} {k : κ} :
    (doc.eraseSection fold name).get fold other k =
      if SameSection fold other (some name) then none else doc.get fold other k := by
  by_cases same : SameSection fold other (some name)
  · rw [if_pos same, Document.get, Document.settings_congr same]
    have gone : (doc.eraseSection fold name).settings fold (some name) = none := by
      have names := distinct.names
      simp only [Document.settings, Document.eraseSection, Option.map_eq_none_iff]
      exact find?_eraseP_named names
    rw [gone]
    rfl
  · rw [if_neg same, Document.get, Document.get, Document.settings_eraseSection_other same]

end Document.Distinct

/-- Putting a section changes what is found in it, and nothing else; erasing it must not uncover another one
of its name. -/
theorem Document.get_putSection {name : κ} {new : Settings κ ν} {k : κ}
    (single : new = [] → doc.Distinct fold) :
    (doc.putSection fold name new).get fold other k =
      if SameSection fold other (some name) then lookup fold k new else doc.get fold other k := by
  by_cases same : SameSection fold other (some name)
  · rw [if_pos same]
    by_cases empty : new = []
    · subst empty
      exact (single rfl).get_eraseSection.trans (if_pos same)
    · rw [Document.get, Document.settings_congr same, Document.settings_putSection empty]
      rfl
  · rw [if_neg same, Document.get, Document.get, Document.settings_putSection_other same]

end Distinct

inductive Request (κ ν : Type) where
  | put (name : Option κ) (key : κ) (value : ν)
  | eraseKey (name : Option κ) (key : κ)
  | eraseSection (name : κ)

namespace Request

def apply (request : Request κ ν) (doc : Document κ ν) : Document κ ν :=
  match request with
  | .put name key value => doc.put fold name key value
  | .eraseKey name key => doc.eraseKey fold name key
  | .eraseSection name => doc.eraseSection fold name

/-- What it means for a table of values. -/
def effect (request : Request κ ν) (table : Option κ → κ → Option ν) : Option κ → κ → Option ν :=
  fun other k =>
    match request with
    | .put name key value => if SameSection fold other name ∧
        fold k = fold key then some value else table other k
    | .eraseKey name key => if SameSection fold other name ∧ fold k = fold key then none else table other k
    | .eraseSection name => if SameSection fold other (some name) then none else table other k

variable {fold} {doc : Document κ ν}

theorem apply_spec (distinct : doc.Distinct fold) (request : Request κ ν) :
    (request.apply fold doc).Distinct fold ∧
      ∀ other k, (request.apply fold doc).get fold other k =
        request.effect fold (fun name key => doc.get fold name key) other k := by
  cases request with
  | put name key value => exact ⟨distinct.put key value, fun _ _ => Document.get_put ..⟩
  | eraseKey name key => exact ⟨distinct.eraseKey key, fun _ _ => distinct.get_eraseKey⟩
  | eraseSection name => exact ⟨distinct.eraseSection name, fun _ _ => distinct.get_eraseSection⟩

end Request

end SysHelo.Sections
