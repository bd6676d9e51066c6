import FlashForwarder.Compressor.ContextExchange

/-!
# The slots of templates

`addTemplate` numbers the templates in 8 bits, and a context has as many token maps and snapshot
arrays as the set counts.  The number of a template is the slot where a context looks for its map
and its array.
-/

namespace FlashForwarder

open ProgramLoop Traced

namespace Context

/-! ## What a message changes -/

/-- The token map and the snapshot array of a slot are the same. -/
def SameSlot (slot : Nat) (before after : Context) : Prop :=
  after.templateCacheMaps[slot]? = before.templateCacheMaps[slot]? ∧
    after.templateCacheArrays[slot]? = before.templateCacheArrays[slot]?

/-- Nothing changes but the token map and the snapshot array of one slot. -/
structure Touches (slot : Nat) (before after : Context) : Prop where
  templates : after.templates = before.templates
  maps : after.templateCacheMaps.length = before.templateCacheMaps.length
  arrays : after.templateCacheArrays.length = before.templateCacheArrays.length
  others : ∀ other, other ≠ slot → SameSlot other before after

/-- A message of a template goes through a context: it is encoded, or a pass of the loop in `decode`
comes to it. -/
inductive Exchanges (tmp : Template) : Context → Context → Prop
  | encode {context next : Context} {message : Message} {id : UInt32} {token : List UInt8}
      {buffer output : List UInt8} : context.templates.getTemplate id = some tmp →
      context.encode message id token buffer = some (next, output) → Exchanges tmp context next
  | again {memory : Memory} {cursor next : Cursor} {id : UInt32} {cacheIndex : UInt64} :
      cursor.context.templates.getTemplate id = some tmp →
      (decodeMessage memory cursor tmp cacheIndex).outcome = some (.again next) →
      Exchanges tmp cursor.context next.context
  | leave {memory : Memory} {cursor : Cursor} {result : Decoded} {id : UInt32}
      {cacheIndex : UInt64} : cursor.context.templates.getTemplate id = some tmp →
      (decodeMessage memory cursor tmp cacheIndex).outcome = some (.leave result) →
      Exchanges tmp cursor.context result.context

variable {context next : Context}

theorem Touches.refl (slot : Nat) (context : Context) : Touches slot context context where
  templates := rfl
  maps := rfl
  arrays := rfl
  others _ _ := ⟨rfl, rfl⟩

theorem Touches.set (slot : Nat) (map : SnapShotCacheMap) (array : SnapShotCacheArray) :
    Touches slot context
      { context with
        templateCacheMaps := context.templateCacheMaps.set slot map
        templateCacheArrays := context.templateCacheArrays.set slot array } where
  templates := rfl
  maps := List.length_set
  arrays := List.length_set
  others _ differ := ⟨List.getElem?_set_ne differ.symm, List.getElem?_set_ne differ.symm⟩

theorem Touches.setArray (slot : Nat) (array : SnapShotCacheArray) :
    Touches slot context
      { context with templateCacheArrays := context.templateCacheArrays.set slot array } where
  templates := rfl
  maps := rfl
  arrays := List.length_set
  others _ differ := ⟨rfl, List.getElem?_set_ne differ.symm⟩

theorem touches_of_encode {message : Message} {id : UInt32} {token buffer output : List UInt8}
    {tmp : Template} (found : context.templates.getTemplate id = some tmp)
    (encoded : context.encode message id token buffer = some (next, output)) :
    Touches tmp.index.toNat context next := by
  simp only [encode, found, Option.bind_eq_bind, Option.bind_eq_some_iff] at encoded
  obtain ⟨cacheMap, -, cacheArray, -, rest⟩ := encoded
  split at rest
  · obtain ⟨cacheMessage, -, rest⟩ := Option.bind_eq_some_iff.mp rest
    obtain ⟨written, -, same⟩ := Option.bind_eq_some_iff.mp rest
    cases same
    exact Touches.setArray _ _
  · obtain ⟨written, -, same⟩ := Option.bind_eq_some_iff.mp rest
    cases same
    exact Touches.set _ _ _

/-- A message that is decoded touches the slot of its template. -/
theorem touches_decodeMessage {memory : Memory} {cursor : Cursor} {tmp : Template}
    {cacheIndex : UInt64} : Safe (fun _ => True)
      (Keeps (fun next : Cursor => Touches tmp.index.toNat cursor.context next.context)
        fun result : Decoded => Touches tmp.index.toNat cursor.context result.context)
      (decodeMessage memory cursor tmp cacheIndex) := by
  refine Safe.bind (.anything _) fun array _ => Safe.bind (.anything _) fun selected _ => ?_
  split
  · exact Safe.pure (Touches.refl _ _)
  · refine Safe.bind (.anything _) fun decoded _ => ?_
    dsimp only
    split
    · exact Safe.pure (Touches.setArray _ _)
    · exact Safe.bind (.anything _) fun _ _ => Safe.pure (Touches.setArray _ _)

theorem Exchanges.touches {tmp : Template} (exchanges : Exchanges tmp context next) :
    Touches tmp.index.toNat context next := by
  cases exchanges with
  | encode found encoded => exact touches_of_encode found encoded
  | again found passed => exact touches_decodeMessage.2 _ passed
  | leave found passed => exact touches_decodeMessage.2 _ passed

/-! ## Contexts in use -/

/-- The contexts that come of one built over the set. -/
inductive Built (templates : Templates) : Context → Prop
  | new : Built templates (Context.new templates)
  | exchanges {tmp : Template} {context next : Context} : Built templates context →
      Exchanges tmp context next → Built templates next

variable {templates : Templates}

/-- A context keeps its set, and a map and an array for each template that the set counts. -/
theorem Built.lengths (built : Built templates context) : context.templates = templates ∧
    context.templateCacheMaps.length = templates.getTemplatesCount.toNat ∧
    context.templateCacheArrays.length = templates.getTemplatesCount.toNat := by
  induction built with
  | new => exact ⟨rfl, List.length_replicate, List.length_replicate⟩
  | exchanges _ exchanges ih =>
      obtain ⟨same, maps, arrays⟩ := ih
      have touches := exchanges.touches
      exact ⟨touches.templates.trans same, touches.maps.trans maps, touches.arrays.trans arrays⟩

theorem Built.encode (built : Built templates context) {message : Message} {id : UInt32}
    {token buffer output : List UInt8}
    (encoded : context.encode message id token buffer = some (next, output)) :
    Built templates next := by
  cases found : context.templates.getTemplate id with
  | none =>
      rw [Context.encode, found] at encoded
      cases encoded
      exact built
  | some tmp => exact built.exchanges (.encode found encoded)

theorem Built.decodeMessage {cursor : Cursor} (built : Built templates cursor.context)
    {id : UInt32} {tmp : Template} (found : cursor.context.templates.getTemplate id = some tmp)
    (memory : Memory) (cacheIndex : UInt64) : Safe (fun _ => True)
      (Keeps (fun next : Cursor => Built templates next.context)
        fun result : Decoded => Built templates result.context)
      (Context.decodeMessage memory cursor tmp cacheIndex) := by
  refine ⟨fun _ _ => trivial, fun pass passed => ?_⟩
  cases pass with
  | again next => exact built.exchanges (.again found passed)
  | leave result => exact built.exchanges (.leave found passed)

/-- A pass of the loop in `decode` leaves a context in use, or goes on with one. -/
theorem Built.decodePass {cursor : Cursor} (built : Built templates cursor.context)
    (memory : Memory) (end_ : Int) : Safe (fun _ => True)
      (Keeps (fun next : Cursor => Built templates next.context)
        fun result : Decoded => Built templates result.context)
      (Context.decodePass memory end_ cursor) := by
  unfold Context.decodePass
  split
  · refine Safe.bind (.anything _) fun templateId _ => ?_
    split
    · exact Safe.pure built
    refine Safe.bind (.anything _) fun _ _ => Safe.bind (.anything _) fun cacheIndex _ => ?_
    dsimp only
    split
    · exact Safe.pure built
    refine Safe.bind (.anything _) fun _ _ => ?_
    cases found : cursor.context.templates.getTemplate (templateId.value.getD 0) with
    | none => exact Safe.pure built
    | some tmp =>
        have behind : Built templates
            (⟨cursor.begin_ + templateId.ret + cacheIndex.ret,
              cursor.size - UInt64.ofInt templateId.ret - UInt64.ofInt cacheIndex.ret,
              cursor.messages, cursor.context⟩ : Cursor).context := built
        exact behind.decodeMessage found memory _
  · exact Safe.pure built

theorem Built.decode (built : Built templates context) {memory : Memory} {size : UInt64}
    {messages : List Message} {result : Decoded}
    (decoded : context.Decodes memory size messages result) : Built templates result.context := by
  obtain ⟨fuel, ended⟩ := decoded
  rw [Context.decode] at ended
  split at ended
  · cases ended
    exact built
  · have kept : ∀ next : Cursor, Reaches (Context.decodePass memory (size.toNat - 1))
          (context.start size messages) next → Built templates next.context →
        Safe (fun _ => True) (Keeps (fun later : Cursor => Built templates later.context)
          fun left : Decoded => Built templates left.context)
          (Context.decodePass memory (size.toNat - 1) next) :=
      fun next _ here => here.decodePass memory (size.toNat - 1)
    exact (Safe.loop kept fuel built).2 result ended

end Context

/-! ## Slots -/

/-- A template is the last that was added with its id, at the place. -/
def Remains (added : List Template) (place : Nat) (original : Template) : Prop :=
  added[place]? = some original ∧
    ∀ later tmp, place < later → added[later]? = some tmp → tmp.id ≠ original.id

/-- No two of the templates that remain were added a multiple of 256 calls apart, and the place of
each leaves less, divided by 256, than the number of all calls. -/
def RemainApart (added : List Template) : Prop :=
  ∀ place original, Remains added place original →
    place % 256 < added.length % 256 ∧
      ∀ other original', Remains added other original' → other % 256 = place % 256 → other = place

/-- The templates that are found have slots of their own, below the count, so each context built
over the set has a map and an array for each, which no message of another template changes. -/
structure SlotsSound (added : List Template) : Prop where
  apart : ∀ id other tmp tmp', (Templates.ofList added).getTemplate id = some tmp →
    (Templates.ofList added).getTemplate other = some tmp' → id ≠ other → tmp.index ≠ tmp'.index
  inside : ∀ id tmp, (Templates.ofList added).getTemplate id = some tmp →
    tmp.index < (Templates.ofList added).getTemplatesCount
  held : ∀ context, Context.Built (Templates.ofList added) context →
    ∀ id tmp, (Templates.ofList added).getTemplate id = some tmp →
      tmp.index.toNat < context.templateCacheMaps.length ∧
        tmp.index.toNat < context.templateCacheArrays.length
  unshared : ∀ context next, Context.Built (Templates.ofList added) context →
    ∀ id other tmp tmp', (Templates.ofList added).getTemplate id = some tmp →
      (Templates.ofList added).getTemplate other = some tmp' → id ≠ other →
      Context.Exchanges tmp context next → Context.SameSlot tmp'.index.toNat context next

variable {added : List Template} {place : Nat} {original : Template}

theorem remains_iff : Remains added place original ↔ ∃ before after,
    added = before ++ original :: after ∧ before.length = place ∧
      ∀ later ∈ after, later.id ≠ original.id := by
  constructor
  · rintro ⟨here, fresh⟩
    obtain ⟨inside, rfl⟩ := List.getElem?_eq_some_iff.mp here
    refine ⟨added.take place, added.drop (place + 1), ?_, ?_, ?_⟩
    · rw [List.getElem_cons_drop, List.take_append_drop]
    · rw [List.length_take, Nat.min_eq_left (Nat.le_of_lt inside)]
    · intro later member
      obtain ⟨offset, found⟩ := List.mem_iff_getElem?.mp member
      rw [List.getElem?_drop] at found
      exact fresh _ later (by omega) found
  · rintro ⟨before, after, rfl, rfl, fresh⟩
    refine ⟨by simp, fun later tmp beyond found => ?_⟩
    rw [List.getElem?_append_right (Nat.le_of_lt beyond)] at found
    obtain ⟨offset, rest⟩ : ∃ offset, later - before.length = offset + 1 :=
      ⟨later - before.length - 1, by omega⟩
    rw [rest, List.getElem?_cons_succ] at found
    exact fresh tmp (List.mem_of_getElem? found)

theorem getTemplate_iff_remains {id : UInt32} {tmp : Template} :
    (Templates.ofList added).getTemplate id = some tmp ↔ ∃ place original,
      Remains added place original ∧ original.id = id ∧
        tmp = original.setIndex (UInt8.ofNat place) := by
  rw [Templates.getTemplate_ofList_iff]
  constructor
  · rintro ⟨before, original, after, shape, rfl, fresh, rfl⟩
    exact ⟨before.length, original, remains_iff.mpr ⟨before, after, shape, rfl, fresh⟩, rfl, rfl⟩
  · rintro ⟨place, original, remains, rfl, rfl⟩
    obtain ⟨before, after, shape, rfl, fresh⟩ := remains_iff.mp remains
    exact ⟨before, original, after, shape, rfl, fresh, rfl⟩

theorem Remains.unique {other : Nat} {original' : Template} (remains : Remains added place original)
    (remains' : Remains added other original') (same : original.id = original'.id) :
    place = other := by
  rcases Nat.lt_trichotomy place other with before | equal | after
  · exact absurd same.symm (remains.2 other original' before remains'.1)
  · exact equal
  · exact absurd same (remains'.2 place original after remains.1)

theorem getTemplate_of_remains (remains : Remains added place original) :
    (Templates.ofList added).getTemplate original.id =
      some (original.setIndex (UInt8.ofNat place)) :=
  getTemplate_iff_remains.mpr ⟨place, original, remains, rfl, rfl⟩

/-- The slot of a template that remains is below the count just if its place leaves less than the
number of calls. -/
theorem index_lt_count_iff : (original.setIndex (UInt8.ofNat place)).index <
    (Templates.ofList added).getTemplatesCount ↔ place % 256 < added.length % 256 := by
  rw [UInt8.lt_iff_toNat_lt, Templates.getTemplatesCount, Templates.index_ofList]
  simp only [Template.setIndex, UInt8.toNat_ofNat']

/-- Two templates that remain have one slot just if their places leave the same. -/
theorem index_eq_iff {other : Nat} {original' : Template} :
    (original.setIndex (UInt8.ofNat place)).index = (original'.setIndex (UInt8.ofNat other)).index ↔
      place % 256 = other % 256 := by
  rw [← UInt8.toNat_inj]
  simp only [Template.setIndex, UInt8.toNat_ofNat']

theorem SlotsSound.remainApart (sound : SlotsSound added) : RemainApart added := by
  intro place original remains
  have found := getTemplate_of_remains remains
  refine ⟨index_lt_count_iff.mp (sound.inside _ _ found), ?_⟩
  intro other original' remains' same
  have found' := getTemplate_of_remains remains'
  by_cases equal : original'.id = original.id
  · exact remains'.unique remains equal
  · exact absurd (index_eq_iff.mpr same) (sound.apart _ _ _ _ found' found equal)

theorem RemainApart.slotsSound (remainApart : RemainApart added) : SlotsSound added := by
  have inside : ∀ id tmp, (Templates.ofList added).getTemplate id = some tmp →
      tmp.index < (Templates.ofList added).getTemplatesCount := by
    intro id tmp found
    obtain ⟨place, original, remains, -, rfl⟩ := getTemplate_iff_remains.mp found
    exact index_lt_count_iff.mpr (remainApart place original remains).1
  have apart : ∀ id other tmp tmp', (Templates.ofList added).getTemplate id = some tmp →
      (Templates.ofList added).getTemplate other = some tmp' → id ≠ other →
      tmp.index ≠ tmp'.index := by
    rintro id other tmp tmp' found found' differ same
    obtain ⟨place, original, remains, rfl, rfl⟩ := getTemplate_iff_remains.mp found
    obtain ⟨place', original', remains', rfl, rfl⟩ := getTemplate_iff_remains.mp found'
    obtain rfl := (remainApart place' original' remains').2 place original remains
      (index_eq_iff.mp same)
    exact differ (congrArg Template.id (Option.some_inj.mp (remains.1.symm.trans remains'.1)))
  refine ⟨apart, inside, ?_, ?_⟩
  · intro context built id tmp found
    obtain ⟨-, maps, arrays⟩ := built.lengths
    rw [maps, arrays]
    exact ⟨UInt8.lt_iff_toNat_lt.mp (inside id tmp found),
      UInt8.lt_iff_toNat_lt.mp (inside id tmp found)⟩
  · intro context next _ id other tmp tmp' found found' differ exchanges
    refine exchanges.touches.others _ fun same => ?_
    exact apart id other tmp tmp' found found' differ (UInt8.toNat_inj.mp same.symm)

/-- The slots of a set are sound just if the templates that remain were added apart. -/
theorem slotsSound_iff (added : List Template) : SlotsSound added ↔ RemainApart added :=
  ⟨SlotsSound.remainApart, RemainApart.slotsSound⟩

/-- At most 255 calls leave every template a slot of its own. -/
theorem slotsSound_of_few (few : added.length ≤ 255) : SlotsSound added := by
  apply RemainApart.slotsSound
  intro place original remains
  have bound := (List.getElem?_eq_some_iff.mp remains.1).1
  refine ⟨by omega, fun other original' remains' same => ?_⟩
  have bound' := (List.getElem?_eq_some_iff.mp remains'.1).1
  omega

/-- Templates with the ids from 0 to 255. -/
def manyTemplates : List Template :=
  (List.range 256).map fun id => Template.new (UInt32.ofNat id)

/-- The count of 256 templates is 0, so the last of them has no map and no array. -/
theorem manyTemplates_not_sound : ¬∀ added : List Template, SlotsSound added := by
  intro claimed
  have length : manyTemplates.length = 256 := by
    rw [manyTemplates, List.length_map, List.length_range]
  have last : Remains manyTemplates 255 (Template.new 255) := by
    refine ⟨by simp [manyTemplates], fun later tmp beyond found => ?_⟩
    have bound := (List.getElem?_eq_some_iff.mp found).1
    omega
  have below := (claimed manyTemplates).remainApart 255 _ last
  rw [length] at below
  exact absurd below.1 (by decide)

end FlashForwarder
