import DataSchema.Proofs.Sequence
import DataSchema.Proofs.Store.Proper
import DataSchema.Store.Expression

/-!
Whatever is built keeps stores proper. Of expressions it is only asked that what they give as a
value holds nothing, and that descriptors with a field are of a kind that has one.
-/

namespace DataSchema

/-- A wrapper that puts descriptors down with a field only if they have one. -/
def Wrapper.Proper : Wrapper → Prop
  | descriptor kind => kind.field?.isSome = true
  | _ => True

namespace Expression

mutual

/-- What an expression gives as a value holds nothing, and what it makes with a field has one. -/
def Proper : Expression → Prop
  | plain v => v.IsPlain
  | list items | tuple items | set items => AllProper items
  | dict entries | view entries => EntriesProper entries
  | descriptor kind (some field) => kind.field?.isSome = true ∧ Proper field
  | wrapped wrapper _ base => wrapper.Proper ∧ Proper base
  | optional base | listOf base | member base _ | derived base | configurationShape base
  | fileShape base => Proper base
  | extended base extra => Proper base ∧ Proper extra
  | _ => True
termination_by structural e => e

def AllProper : List Expression → Prop
  | [] => True
  | e :: es => Proper e ∧ AllProper es
termination_by structural es => es

def EntriesProper : List (Expression × Expression) → Prop
  | [] => True
  | (key, e) :: entries => Proper key ∧ Proper e ∧ EntriesProper entries
termination_by structural entries => entries

end

end Expression

namespace Build

/-- An operation after which a proper store is still proper. -/
def Keeps {α : Type} (action : Build α) : Prop :=
  ∀ store : Store, store.Proper → ∀ result, action.run store = .ok result → result.2.Proper

namespace Keeps

variable {α β : Type}

theorem pure (a : α) : Keeps (Pure.pure a : Build α) := by
  intro store hproper result h
  obtain rfl := Except.ok.inj h
  exact hproper

theorem throw (e : Error) : Keeps (MonadExcept.throw e : Build α) := by
  intro store hproper result h
  contradiction

theorem bind {action : Build α} {next : α → Build β} (h : Keeps action)
    (hnext : ∀ a, Keeps (next a)) : Keeps (action >>= next) := by
  intro store hproper result hrun
  rw [StateT.run_bind] at hrun
  cases hfirst : action.run store with
  | error e =>
    rw [hfirst] at hrun
    contradiction
  | ok first =>
    rw [hfirst] at hrun
    exact hnext first.1 first.2 (h store hproper first hfirst) result hrun

/-- What is done with the store may rely on it. -/
theorem get {next : Store → Build α} (h : ∀ store : Store, store.Proper → Keeps (next store)) :
    Keeps (MonadState.get >>= next) :=
  fun store hproper => h store hproper store hproper

theorem ofExcept {r : Except Error α} : Keeps (MonadExcept.ofExcept r : Build α) := by
  cases r with
  | ok a => exact pure a
  | error e => exact throw e

/-- What is done with a result may rely on where it comes from. -/
theorem ofExcept_bind {r : Except Error α} {next : α → Build β}
    (h : ∀ a, r = .ok a → Keeps (next a)) : Keeps (MonadExcept.ofExcept r >>= next) := by
  cases r with
  | ok a => exact h a rfl
  | error e => exact fun store _ result hrun => by contradiction

theorem sequential : Sequential fun α (action : Build α) => Keeps action := ⟨pure, bind⟩

end Keeps

theorem add_keeps {cell : Cell} (h : cell.Proper) : Keeps (add cell) := by
  intro store hproper result hrun
  obtain rfl := Except.ok.inj hrun
  exact hproper.add h

theorem plain_keeps {v : Value} (h : v.IsPlain) : Keeps (plain v) := add_keeps h

theorem text_keeps (s : String) : Keeps (text s) := plain_keeps rfl

theorem leaf_keeps {d : Descriptor} (h : d.parts = []) : Keeps (leaf d) := plain_keeps h

theorem tuple_keeps (items : List Ref) : Keeps (add (.tuple items)) := add_keeps trivial

theorem list_keeps (items : List Ref) : Keeps (add (.list items)) := add_keeps trivial

theorem dict_keeps (entries : List (Ref × Ref)) : Keeps (add (.dict entries)) := add_keeps trivial

theorem pair_keeps (a b : Ref) : Keeps (pair a b) := tuple_keeps [a, b]

theorem settle_keeps {part : Store.Part} (h : part.Proper) : Keeps (settle part) := by
  cases part with
  | held r => exact Keeps.pure r
  | loose v => exact plain_keeps h

mutual

theorem plant_keeps (d : Descriptor) : Keeps (plant d) := by
  cases d with
  | literal p =>
    rw [plant]
    exact (plain_keeps (Value.isPlain_toValue p)).bind fun held => add_keeps rfl
  | list d | record d | optional d | type d =>
    rw [plant]
    exact (plant_keeps d).bind fun held => add_keeps rfl
  | union ds =>
    rw [plant]
    refine (plantAll_keeps ds).bind fun items => ?_
    exact (tuple_keeps items).bind fun held => add_keeps rfl
  | object fields =>
    rw [plant]
    refine (plantFields_keeps fields).bind fun items => ?_
    exact (tuple_keeps items).bind fun held => add_keeps rfl
  | file tag =>
    rw [plant]
    refine Keeps.bind (plain_keeps ?_) fun held => add_keeps rfl
    cases tag <;> rfl
  | _ => exact leaf_keeps rfl
termination_by structural d

theorem plantAll_keeps (ds : List Descriptor) : Keeps (plantAll ds) := by
  cases ds with
  | nil => exact Keeps.pure []
  | cons d ds =>
    rw [plantAll]
    exact (plant_keeps d).bind fun r => (plantAll_keeps ds).bind fun rs => Keeps.pure (r :: rs)
termination_by structural ds

theorem plantFields_keeps (fields : List (String × Descriptor)) : Keeps (plantFields fields) := by
  cases fields with
  | nil => exact Keeps.pure []
  | cons field fields =>
    obtain ⟨name, d⟩ := field
    rw [plantFields]
    refine (text_keeps name).bind fun key => (plant_keeps d).bind fun value => ?_
    refine (pair_keeps key value).bind fun r => (plantFields_keeps fields).bind fun rs => ?_
    exact Keeps.pure (r :: rs)
termination_by structural fields

end

theorem answer_keeps (said : Except Error Descriptor) : Keeps (answer said) := Keeps.ofExcept

theorem examine_keeps (kind : Kind) (held : Ref) : Keeps (examine kind held) :=
  Keeps.get fun _ _ => (answer_keeps _).bind fun _ => Keeps.pure ()

theorem pairs_keeps (r : Ref) : Keeps (pairs r) := by
  refine Keeps.get fun store hproper => ?_
  dsimp only
  split
  · next entries _ => exact Keeps.pure entries
  · refine Keeps.sequential.mapM fun part hpart => Keeps.ofExcept_bind fun ab hpair => ?_
    obtain ⟨ha, hb⟩ := hproper.of_pair? (hproper.of_mem_parts hpart) hpair
    exact (settle_keeps ha).bind fun a => (settle_keeps hb).bind fun b => Keeps.pure (a, b)

theorem fieldTuple_keeps (fields : List (Ref × Ref)) : Keeps (fieldTuple fields) := by
  refine Keeps.bind (Keeps.sequential.mapM fun field _ => ?_) fun items => tuple_keeps items
  exact pair_keeps field.1 field.2

/-- Descriptors are made with their field in place. -/
theorem make_keeps {kind : Kind} (h : kind.field?.isSome = true) (held : Ref) :
    Keeps (make kind held) := by
  refine (examine_keeps kind held).bind fun _ => Keeps.get fun store hproper => ?_
  cases kind with
  | object =>
    refine (pairs_keeps held).bind fun fields => ?_
    exact (fieldTuple_keeps fields).bind fun items => add_keeps rfl
  | union =>
    dsimp only
    split
    · exact add_keeps rfl
    · refine Keeps.bind (Keeps.sequential.mapM fun part hpart => ?_) fun items => ?_
      · exact settle_keeps (hproper.of_mem_parts hpart)
      · exact (tuple_keeps items).bind fun r => add_keeps rfl
  | _ => exact add_keeps h

theorem receiver_keeps (method : String) (r : Ref) : Keeps (receiver method r) := by
  refine Keeps.get fun store _ => ?_
  split
  · exact Keeps.throw (.noAttribute method)
  · exact Keeps.pure ()

theorem optional_keeps (r : Ref) : Keeps (optional r) :=
  (receiver_keeps "optional" r).bind fun _ => add_keeps rfl

theorem listed_keeps (r : Ref) : Keeps (listed r) :=
  (receiver_keeps "list" r).bind fun _ => add_keeps rfl

theorem put_keeps (key v : Ref) (entries : List (Ref × Ref)) : Keeps (put key v entries) :=
  Keeps.get fun _ _ => Keeps.ofExcept_bind fun _ _ => Keeps.ofExcept

theorem merge_keeps (entries : List (Ref × Ref)) (others : Ref) :
    Keeps (merge entries others) := by
  refine Keeps.get fun store hproper => ?_
  dsimp only
  split
  · exact Keeps.sequential.foldlM (fun entries entry _ => put_keeps entry.1 entry.2 entries) entries
  · exact Keeps.throw .notIterable
  · next hparts =>
    refine Keeps.sequential.foldlM (fun entries part hpart => ?_) entries
    refine Keeps.ofExcept_bind fun ab hpair => ?_
    obtain ⟨ha, hb⟩ := hproper.of_pair? (hproper.of_mem_parts? hparts hpart) hpair
    refine (settle_keeps ha).bind fun a => (settle_keeps hb).bind fun b => ?_
    exact put_keeps a b entries

theorem fieldEntries_keeps (held : Ref) : Keeps (fieldEntries held) := merge_keeps [] held

theorem extensible_keeps (base : Ref) : Keeps (extensible base) := by
  refine Keeps.get fun store _ => ?_
  split
  · next held _ => exact Keeps.pure held
  · exact Keeps.throw (.noAttribute "extend")

theorem extend_keeps (held extra : Ref) : Keeps (extend held extra) := by
  refine Keeps.get fun store _ => ?_
  split
  · refine (answer_keeps _).bind fun _ => (fieldEntries_keeps held).bind fun entries => ?_
    refine (merge_keeps entries extra).bind fun merged => ?_
    exact (fieldTuple_keeps merged).bind fun items => add_keeps rfl
  · refine (fieldEntries_keeps held).bind fun entries => ?_
    refine (merge_keeps entries extra).bind fun merged => ?_
    exact (dict_keeps merged).bind fun r => make_keeps rfl r

theorem derive_keeps (r : Ref) : Keeps (derive r) := by
  refine Keeps.get fun store _ => Keeps.ofExcept_bind fun shape _ => ?_
  split
  · next d _ => exact plant_keeps d
  · refine (leaf_keeps rfl).bind fun absent => ?_
    exact (tuple_keeps _).bind fun items => add_keeps rfl
  · exact Keeps.pure Store.absent

theorem configurationOf_keeps (kind : Kind) (held : Ref) : Keeps (configurationOf kind held) := by
  cases kind with
  | list | record | optional | file => exact (text_keeps _).bind fun key => dict_keeps _
  | object => exact (fieldEntries_keeps held).bind fun entries => dict_keeps entries
  | _ => exact Keeps.pure held

theorem configuration_keeps (r : Ref) : Keeps (configuration r) := by
  refine Keeps.get fun store _ => ?_
  split
  · next kind held _ => exact configurationOf_keeps kind held
  · exact Keeps.pure Store.absent
  · exact Keeps.throw (.noAttribute "configuration")

theorem ownMember_keeps (r : Ref) (kind : Kind) (name : String) :
    Keeps (ownMember r kind name) := by
  refine Keeps.get fun store _ => ?_
  split
  · exact Keeps.pure (Store.idOf kind)
  · exact plain_keeps rfl
  · exact configuration_keeps r
  · exact plant_keeps (.configurationShape kind)
  · exact derive_keeps r
  · next held _ => exact (fieldEntries_keeps held).bind fun entries => add_keeps trivial
  · split
    · exact Keeps.pure _
    · exact Keeps.throw _
  · exact Keeps.throw _

theorem member_keeps (r : Ref) (name : String) : Keeps (member r name) := by
  refine Keeps.get fun store _ => ?_
  split
  · exact Keeps.pure _
  · exact Keeps.pure _
  · split
    · next kind _ => exact ownMember_keeps r kind _
    · exact Keeps.throw _

theorem wrapOnce_keeps {wrapper : Wrapper} (h : wrapper.Proper) (key r : Ref) :
    Keeps (wrapOnce wrapper key r) := by
  cases wrapper with
  | list => exact list_keeps [r]
  | tuple => exact tuple_keeps [r]
  | dict => exact dict_keeps [(key, r)]
  | descriptor kind => exact make_keeps h r
  | union => exact (list_keeps [r]).bind fun held => make_keeps rfl held
  | object => exact (dict_keeps [(key, r)]).bind fun held => make_keeps rfl held
  | optionalObject =>
    refine (optional_keeps r).bind fun inner => ?_
    exact (dict_keeps [(key, inner)]).bind fun held => make_keeps rfl held

theorem wrapTimes_keeps {wrapper : Wrapper} (h : wrapper.Proper) (key : Ref) (times : Nat)
    (r : Ref) : Keeps (wrapTimes wrapper key times r) := by
  induction times generalizing r with
  | zero => exact Keeps.pure r
  | succ times ih => exact (wrapOnce_keeps h key r).bind fun wrapped => ih wrapped

theorem wrap_keeps {wrapper : Wrapper} (h : wrapper.Proper) (times : Nat) (r : Ref) :
    Keeps (wrap wrapper times r) := by
  cases wrapper with
  | dict name | object name | optionalObject name =>
    exact (text_keeps name).bind fun key => wrapTimes_keeps h key times r
  | _ => exact wrapTimes_keeps h Store.absent times r

theorem setOf_keeps (members : List Ref) : Keeps (setOf members) := by
  refine Keeps.get fun store _ => ?_
  refine Keeps.bind (Keeps.sequential.forM fun r _ => Keeps.ofExcept) fun _ => ?_
  exact Keeps.ofExcept_bind fun distinct _ => add_keeps trivial

theorem parts_of_make? {kind : Kind} (h : kind.field? = none) :
    ((Descriptor.make? kind .null).toOption.getD .null).parts = [] := by
  cases kind with
  | literal | list | record | object | optional | union | type | file => simp [Kind.field?] at h
  | _ => rfl

mutual

/-- What an expression builds is put down properly. -/
theorem eval_keeps (names : List (String × Ref)) (e : Expression) (h : e.Proper) :
    Keeps (eval names e) := by
  cases e with
  | plain v => exact plain_keeps h
  | invalid cause => exact Keeps.throw cause
  | fresh => exact Keeps.get fun store _ => plain_keeps rfl
  | list items => exact (evalAll_keeps names items h).bind fun refs => list_keeps refs
  | tuple items => exact (evalAll_keeps names items h).bind fun refs => tuple_keeps refs
  | set members => exact (evalAll_keeps names members h).bind fun refs => setOf_keeps refs
  | dict entries =>
    exact (evalEntries_keeps names entries h []).bind fun written => dict_keeps written
  | view entries =>
    exact (evalEntries_keeps names entries h []).bind fun written => add_keeps trivial
  | descriptor kind field =>
    cases field with
    | none =>
      rw [eval]
      split
      · next hfield => exact make_keeps (by rw [hfield]; rfl) Store.absent
      · next hfield => exact leaf_keeps (parts_of_make? hfield)
    | some field => exact (eval_keeps names field h.2).bind fun held => make_keeps h.1 held
  | named name =>
    rw [eval]
    split
    · next r _ => exact Keeps.pure r
    · exact Keeps.throw (.missingKey name)
  | wrapped wrapper times base =>
    exact (eval_keeps names base h.2).bind fun r => wrap_keeps h.1 times r
  | optional base => exact (eval_keeps names base h).bind fun r => optional_keeps r
  | listOf base => exact (eval_keeps names base h).bind fun r => listed_keeps r
  | extended base extra =>
    refine (eval_keeps names base h.1).bind fun r => (extensible_keeps r).bind fun held => ?_
    exact (eval_keeps names extra h.2).bind fun others => extend_keeps held others
  | member of name => exact (eval_keeps names of h).bind fun r => member_keeps r name
  | derived of => exact (eval_keeps names of h).bind fun r => derive_keeps r
  | configurationShape of =>
    exact (eval_keeps names of h).bind fun r => Keeps.get fun store _ => plant_keeps _
  | fileShape tag =>
    refine (eval_keeps names tag h).bind fun r => Keeps.get fun store _ => ?_
    exact Keeps.ofExcept_bind fun shape _ => plant_keeps shape
  | defaultChoices => exact (plantAll_keeps Registry.defaultChoices).bind fun rs => tuple_keeps rs
termination_by structural e

theorem evalAll_keeps (names : List (String × Ref)) (es : List Expression)
    (h : Expression.AllProper es) : Keeps (evalAll names es) := by
  cases es with
  | nil => exact Keeps.pure []
  | cons e es =>
    rw [evalAll]
    refine (eval_keeps names e h.1).bind fun r => (evalAll_keeps names es h.2).bind fun rs => ?_
    exact Keeps.pure (r :: rs)
termination_by structural es

theorem evalEntries_keeps (names : List (String × Ref)) (entries : List (Expression × Expression))
    (h : Expression.EntriesProper entries) (before : List (Ref × Ref)) :
    Keeps (evalEntries names before entries) := by
  cases entries with
  | nil => exact Keeps.pure before
  | cons entry entries =>
    obtain ⟨key, e⟩ := entry
    obtain ⟨hkey, he, hentries⟩ := h
    rw [evalEntries]
    refine (eval_keeps names key hkey).bind fun k => (eval_keeps names e he).bind fun v => ?_
    refine (put_keeps k v before).bind fun written => ?_
    exact evalEntries_keeps names entries hentries written
termination_by structural entries

end

end Build

end DataSchema
