import DataSchema.Proofs.Correspondence
import DataSchema.Proofs.Store.Representation

/-!
The engine for objects answers as the engine for values does. A descriptor that is a tree is checked
as the descriptor that it stands for, and an object as any value that it shows as deep as the engine
goes: nothing else of an object decides an answer, also where it holds itself.
-/

namespace DataSchema

namespace Value

theorem lookup_cons_self (name : String) (v : Value) (entries : List (Value × Value)) :
    lookup name ((.string name, v) :: entries) = some v := by
  simp [lookup]

theorem lookup_cons_of_ne {name : String} {key : Value} (h : key ≠ .string name) (v : Value)
    (entries : List (Value × Value)) :
    lookup name ((key, v) :: entries) = lookup name entries := by
  cases key with
  | string s =>
    have hne : s ≠ name := fun hs => h (hs ▸ rfl)
    simp [lookup, hne]
  | _ => rfl

end Value

/-- Without a look at what is written down, all failures are one. -/
theorem Test.demand_silent {a b : Bool} (h : a = b) (issue issue' : Issue) :
    Test.demand .silent a issue = Test.demand .silent b issue' := by
  subst h
  cases a <;> rfl

namespace Store

variable {store : Store}

theorem name?_eq_some_iff {key : Ref} {s : String} :
    store.name? key = some s ↔ store.face key = .string s := by
  unfold name? face
  cases hcell : store.cell key with
  | plain v => cases v <;> simp [Cell.face]
  | _ => simp [Cell.face]

theorem sameFace_surface {v : Ref} {w : Value} (h : SameFace (store.face v) w) :
    SameFace (store.surface v) w := by
  unfold surface
  unfold face at h
  cases hcell : store.cell v with
  | dict entries | view entries =>
    rw [hcell] at h
    cases h with
    | same => exact .holding rfl rfl rfl
    | holding _ hw hkind => exact .holding rfl hw hkind
  | _ =>
    rw [hcell] at h
    exact h

theorem entries?_surface (hproper : store.Proper) (v : Ref) :
    (store.surface v).entries? =
      (store.entries? v).map (·.map fun entry => (store.face entry.1, store.face entry.2)) := by
  unfold surface entries?
  cases hcell : store.cell v with
  | plain u => simp [Cell.face, (hproper.plain hcell).entries?]
  | _ => rfl

theorem lookup_sameFace (name : String) {entries shown : List (Value × Value)}
    (h : List.Forall₂ (fun a b => SameFace a.1 b.1 ∧ SameFace a.2 b.2) entries shown) :
    Option.Rel SameFace (Value.lookup name entries) (Value.lookup name shown) := by
  induction h with
  | nil => exact .none
  | @cons a b entries shown hab _ ih =>
    obtain ⟨key, x⟩ := a
    obtain ⟨key', y⟩ := b
    by_cases hkey : key = .string name
    · have hkey' := (hab.1.eq_string_iff name).mp hkey
      subst hkey
      obtain rfl : key' = .string name := hkey'
      rw [Value.lookup_cons_self, Value.lookup_cons_self]
      exact .some hab.2
    · have hkey' : key' ≠ .string name := fun hs => hkey ((hab.1.eq_string_iff name).mpr hs)
      rw [Value.lookup_cons_of_ne hkey, Value.lookup_cons_of_ne hkey']
      exact ih

theorem shows_absent (hproper : store.Proper) (n : Nat) : store.Shows n absent .null := by
  cases n with
  | zero => trivial
  | succ n =>
    simp only [Shows, face, elements?, entries?, hproper.absent]
    exact ⟨.same _, .none, .none⟩

/-- What is found under a name shows what is found there. -/
theorem shows_lookup (hproper : store.Proper) {n : Nat} (name : String)
    {entries : List (Ref × Ref)} {shown : List (Value × Value)}
    (h : List.Forall₂ (fun entry shown =>
      SameFace (store.face entry.1) shown.1 ∧ store.Shows n entry.2 shown.2) entries shown) :
    store.Shows n (store.lookup (.string name) entries) (Value.entryOrNull name shown) := by
  induction h with
  | nil => exact shows_absent hproper n
  | @cons a b entries shown hab _ ih =>
    obtain ⟨key, x⟩ := a
    obtain ⟨key', y⟩ := b
    have hname : store.name? key = some name ↔ key' = .string name :=
      name?_eq_some_iff.trans (hab.1.eq_string_iff name)
    by_cases hkey : key' = .string name
    · subst hkey
      simp only [lookup, Value.entryOrNull, Value.lookup_cons_self]
      simp only [List.find?_cons, hname.mpr rfl]
      simpa using hab.2
    · have hne : (store.name? key == some name) = false := by simpa using mt hname.mp hkey
      simp only [lookup, Value.entryOrNull, Value.lookup_cons_of_ne hkey] at ih ⊢
      simpa only [List.find?_cons, hne] using ih

/-- The rule of files reads one entry, and of that no more than its face. -/
theorem lengthRule_shows (hproper : store.Proper) {n : Nat} {v : Ref} {w : Value}
    (h : store.Shows (n + 2) v w) (path path' : Path) :
    lengthRule .silent (store.surface v) path = lengthRule .silent w path' := by
  obtain ⟨-, -, hentries⟩ := h
  unfold lengthRule
  rw [entries?_surface hproper]
  generalize store.entries? v = entries, w.entries? = shown at hentries
  cases hentries with
  | none => rfl
  | @some entries shown hall =>
    have hfaces : List.Forall₂ (fun a b : Value × Value => SameFace a.1 b.1 ∧ SameFace a.2 b.2)
        (entries.map fun entry => (store.face entry.1, store.face entry.2)) shown := by
      rw [List.forall₂_map_left_iff]
      exact hall.imp fun entry shown hab => ⟨hab.1, hab.2.1⟩
    have hlength := lookup_sameFace "length" hfaces
    dsimp only [Option.map]
    generalize Value.lookup "length" _ = length, Value.lookup "length" shown = length' at hlength ⊢
    cases hlength with
    | none => rfl
    | @some a b hab =>
      simp only [hab.number?]
      cases b.number? with
      | none => rfl
      | some q => exact Test.demand_silent rfl _ _

/-- The rule of a variant without parts asks for no more than faces. -/
theorem rule_leaf_shows (hproper : store.Proper) {n : Nat} {v : Ref} {w : Value}
    (h : store.Shows (n + 2) v w) {d : Descriptor} (hd : d.parts = []) (part part' : PartCheck)
    (path path' : Path) :
    rule part .silent d (store.surface v) path = rule part' .silent d w path' := by
  have hface := sameFace_surface h.1
  cases d with
  | null | void => exact Test.demand_silent hface.isAbsent _ _
  | boolean => exact Test.demand_silent hface.isBool _ _
  | string => exact Test.demand_silent hface.isText _ _
  | literal p => exact Test.demand_silent (hface.isLiteral p) _ _
  | number =>
    simp only [rule, hface.isNumber]
    cases isNumber w with
    | ok holds => exact Test.demand_silent rfl _ _
    | error e => rfl
  | any | image | optional | outsider => rfl
  | type described =>
    simp only [rule, hface.descriptorKind?]
    cases w.descriptorKind? with
    | none => rfl
    | some kind => exact Test.demand_silent rfl _ _
  | file tag => exact lengthRule_shows hproper h path path'
  | object fields =>
    obtain rfl : fields = [] := by simpa [Descriptor.parts] using hd
    have hentries := h.2.2
    simp only [rule, entries?_surface hproper]
    generalize store.entries? v = entries, w.entries? = shown at hentries ⊢
    cases hentries <;> rfl
  | union ds =>
    obtain rfl : ds = [] := hd
    rfl
  | list | record => simp [Descriptor.parts] at hd

/-- Without a look at what is written down, a settled rule is that of the variant. -/
theorem settledRule_silent (d : Descriptor) (v : Ref) (path : Path) :
    store.settledRule .silent d v path =
      rule (fun _ _ _ _ => .pass) .silent d (store.surface v) path := by
  unfold settledRule
  dsimp only
  split
  · next hfalse =>
    rw [failShowing_eq]
    simp only [rule] at hfalse ⊢
    cases hn : isNumber (store.surface v) with
    | error e =>
      rw [hn] at hfalse
      contradiction
    | ok holds =>
      rw [hn] at hfalse
      cases holds with
      | true => simp [Test.demand, Test.pass] at hfalse
      | false => rfl
  · rfl

theorem same_ofBinary64 (q : Rat) (x : Binary64) :
    (Extended.finite q).same (.ofBinary64 x) =
      match x with
      | .finite y => q == y.toRat
      | _ => false := by
  cases x with
  | nan => rfl
  | infinite negative => cases negative <;> rfl
  | finite y => exact (Extended.same_finite q y.toRat).trans (beq_eq_decide q y.toRat).symm

/-- What a literal may expect is compared with everything as the rule of literals compares it. -/
theorem isAlteredLiteral?_toValue (p : Primitive) (v : Value) :
    isAlteredLiteral? p.toValue v = .ok (isLiteral p v) := by
  cases p with
  | bool | string => cases v <;> rfl
  | int m =>
    cases v with
    | int n =>
      refine congrArg Except.ok ((Extended.same_finite m n).trans ?_)
      simp [isLiteral, beq_eq_decide]
    | float x =>
      refine congrArg Except.ok ((same_ofBinary64 m x).trans ?_)
      cases x <;> rfl
    | _ => rfl
  | float y =>
    cases v with
    | int n => exact congrArg Except.ok ((Extended.same_finite _ n).trans (beq_eq_decide _ _).symm)
    | float x =>
      refine congrArg Except.ok ((same_ofBinary64 _ x).trans ?_)
      cases x <;> rfl
    | _ => rfl

theorem kindsOf?_reads (hproper : store.Proper) {subjects : List Subject} {ds : List Descriptor}
    (h : List.Forall₂ store.Reads subjects ds) :
    store.kindsOf? subjects = .ok (ds.map (·.kind)) := by
  unfold kindsOf?
  induction h with
  | nil => rfl
  | cons hd _ ih =>
    rw [List.mapM_cons, kindOf?_reads hproper hd, ih]
    rfl

/-- An entry is checked under its name, or fails for want of one, as the entry that it shows. -/
theorem entry_shows {entry : Ref × Ref} {shown : Value × Value}
    (h : SameFace (store.face entry.1) shown.1) {check check' : String → Test}
    (hcheck : ∀ name, check name = check' name) (issue issue' : Issue) :
    (match store.name? entry.1 with
      | some name => check name
      | none => Test.fail .silent issue) =
    match shown.1 with
      | .string name => check' name
      | _ => Test.fail .silent issue' := by
  have hname : ∀ s, store.name? entry.1 = some s ↔ shown.1 = .string s :=
    fun s => name?_eq_some_iff.trans (h.eq_string_iff s)
  split
  · next name hsome =>
    rw [(hname name).mp hsome]
    exact hcheck name
  · next hnone =>
    split
    · next name hkey =>
      have hsome := (hname name).mpr hkey
      rw [hnone] at hsome
      contradiction
    · rfl

/-- The rule of a subject is that of the descriptor that it stands for, if the checks of their parts
are the same. -/
theorem ruleOf_shows (hproper : store.Proper) {n : Nat} {part : SubjectCheck} {part' : PartCheck}
    (hpart : ∀ s d v w path path', store.Reads s d → store.Shows (n + 1) v w →
      part .silent s v path = part' .silent d w path')
    {s : Subject} {d : Descriptor} {v : Ref} {w : Value} (hs : store.Reads s d)
    (hv : store.Shows (n + 2) v w) (path path' : Path) :
    store.ruleOf part .silent s v path = rule part' .silent d w path' := by
  obtain ⟨hface, helements, hentries⟩ := id hv
  have hform := form_reads hproper hs
  unfold ruleOf
  generalize store.form s = form at hform
  cases hform with
  | leaf hd =>
    dsimp only
    rw [settledRule_silent]
    exact rule_leaf_shows hproper hv hd _ _ path path'
  | optional => rfl
  | file tag =>
    dsimp only
    rw [settledRule_silent]
    exact lengthRule_shows hproper hv path path'
  | literal p =>
    simp only [isAlteredLiteral?_toValue, hface.isLiteral, rule]
    cases isLiteral p w with
    | true => rfl
    | false =>
      dsimp only
      rw [failShowing_eq]
      rfl
  | list hitem =>
    simp only [rule]
    generalize store.elements? v = items, w.elements? = shown at helements ⊢
    cases helements with
    | none => rfl
    | some hall =>
      refine congrArg (Test.all .silent) (mapIdx_eq_of_forall₂ hall ?_)
      exact fun i x y hxy => hpart _ _ x y _ _ hitem hxy
  | record hitem =>
    simp only [rule]
    generalize store.entries? v = entries, w.entries? = shown at hentries ⊢
    cases hentries with
    | none => rfl
    | some hall =>
      refine congrArg (Test.all .silent) (map_eq_of_forall₂ hall ?_)
      rintro ⟨key, x⟩ ⟨key', y⟩ hab
      simp only [failShowing_eq]
      exact entry_shows hab.1 (fun name => hpart _ _ x y _ _ hitem hab.2) _ _
  | @object fields named hfields =>
    simp only [rule]
    generalize store.entries? v = entries, w.entries? = shown at hentries ⊢
    cases hentries with
    | none => rfl
    | some hall =>
      refine congrArg (Test.all .silent) (map_eq_of_forall₂ hfields ?_)
      rintro _ ⟨name, c⟩ ⟨e, rfl, he⟩
      have hstep : Step.ofValue? (.string name) = some (.key name) := rfl
      dsimp only
      rw [checkField_of_step hstep]
      exact hpart _ _ _ _ _ _ he (shows_lookup hproper name hall)
  | @union subjects ds hds =>
    have hkinds := kindsOf?_reads hproper hds
    have htests : (subjects.map fun e => part .silent e v path) =
        ds.map fun e => part' .silent e w path' :=
      map_eq_of_forall₂ hds fun e c he => hpart e c v w path path' he (shows_of_succ hv)
    simp only [rule, hkinds, htests]
    rfl
  | type hd =>
    simp only [rule, kind?, hface.descriptorKind?, kindOf?_reads hproper hd]
    cases w.descriptorKind? with
    | none => rfl
    | some kind => exact Test.demand_silent rfl _ _

/-- A check of a subject is that of the descriptor that it stands for, with any value that the
object shows one level deeper than the check goes. -/
theorem check_shows (hproper : store.Proper) (limit : Limit) {levels : Nat} {s : Subject}
    {d : Descriptor} {v : Ref} {w : Value} (hs : store.Reads s d)
    (hv : store.Shows (levels + 1) v w) (path path' : Path) :
    store.check limit levels .silent s v path =
      DataSchema.check limit levels .silent d w path' := by
  induction levels generalizing s d v w path path' with
  | zero =>
    simp only [check, kindOf?_reads hproper hs, DataSchema.check]
  | succ levels ih =>
    have hrule := ruleOf_shows hproper (fun s d v w path path' hs hv => ih hs hv path path') hs hv
      path path'
    obtain ⟨shape, hshape, hreads⟩ := derived?_reads hproper hs
    simp only [check, hshape, DataSchema.check]
    generalize d.derived? = derived at hreads ⊢
    cases hreads with
    | none => exact hrule
    | some hderived =>
      -- The derived shape is for the same object, one level down.
      dsimp only
      rw [hrule, ih hderived (shows_of_succ hv) path path']

/-- An object is validated as any value that it shows as deep as the engine goes. -/
theorem validate_eq (hproper : store.Proper) (settings : Settings) {r v : Ref} {d : Descriptor}
    {w : Value} (hr : store.descriptorTree? r = some d)
    (hv : store.Shows (settings.depth.limit.bound + 2) v w) :
    store.validate settings r v = DataSchema.validate settings d w := by
  have hreads : store.Reads (.object r) d := hr
  have hrun : ∀ u, store.Shows (settings.depth.limit.bound + 2) v u →
      store.runCheck settings .silent (.object r) v = DataSchema.runCheck settings .silent d u :=
    fun u hu => congrFun (check_shows hproper settings.depth.limit hreads hu [] []) #[]
  unfold validate
  cases htrees : store.trees? r v with
  | none =>
    dsimp only
    rw [hrun w hv]
    rfl
  | some pair =>
    obtain ⟨hfirst, htree, hsecond⟩ := trees?_eq_some htrees
    obtain rfl := Option.some.inj (hr.symm.trans hfirst)
    -- Two trees are checked as values; the tree of the object is one of those that it shows.
    have hshown := shows_tree hproper (settings.depth.limit.bound + 2) htree
    dsimp only
    rw [hsecond, DataSchema.validate, ← hrun _ hshown, hrun w hv]
    rfl

end Store

end DataSchema
