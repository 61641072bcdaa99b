import CLibs.Amf0Values

/-!
# Safe and unsafe reads of AMF0

Objects and arrays are read by loops around the reader of one item, which keep what it has.  The
reader is safe on every input whose walk comes to no unknown type and to no undescribed date.
-/

namespace CLibs.Amf

/-! ## Values inside values -/

/-- What is read behind a pointer that is not null. -/
def proceed (next : Nat → Memory → Reading) : Option Nat × Memory → Reading
  | (none, memory) => .ok (none, memory)
  | (some ptr, memory) => next ptr memory

section Outcomes

variable {bytes : List UInt8} {value : Nat → Prop} {meets : Prop} {few items : List AmfItem}
  {place : Nat} {memory : Memory} {result : Reading}

theorem Outcome.congr {value' : Nat → Prop} {meets' : Prop}
    (outcome : Outcome bytes value meets items place memory result)
    (ends : ∀ next, value' next ↔ value next) (met : meets' ↔ meets) :
    Outcome bytes value' meets' items place memory result := by
  cases outcome with
  | faults here failed => exact .faults (met.mpr here) failed
  | returns free ptr after returned ends' inside frame =>
    exact .returns (mt met.mp free) ptr after returned (fun next => (ends next).trans (ends' next))
      inside frame

theorem Outcome.earlier {first : Nat} (outcome : Outcome bytes value meets items place memory result)
    (behind : first ≤ place) : Outcome bytes value meets items first memory result := by
  cases outcome with
  | faults here failed => exact .faults here failed
  | returns free ptr after returned ends inside frame =>
    exact .returns free ptr after returned ends
      (fun next found => ⟨Nat.le_trans behind (inside next found).1, (inside next found).2⟩) frame

theorem Outcome.mono (outcome : Outcome bytes value meets few place memory result)
    (listed : ∀ item ∈ few, item ∈ items) : Outcome bytes value meets items place memory result := by
  cases outcome with
  | faults here failed => exact .faults here failed
  | returns free ptr after returned ends inside frame =>
    exact .returns free ptr after returned ends inside (frame.mono listed)

variable {item : Option AmfItem}

theorem Outcome.group (outcome : Outcome bytes value meets (itemsOf item) place memory result) :
    Outcome bytes value meets item.toList place memory result := by
  cases outcome with
  | faults here failed => exact .faults here failed
  | returns free ptr after returned ends inside frame =>
    exact .returns free ptr after returned ends inside frame.group

theorem Outcome.andThen {next : Nat → Memory → Reading} {rest : Nat → Nat → Prop}
    {meetsRest : Nat → Prop} (outcome : Outcome bytes value meets few place memory result)
    (listed : ∀ item ∈ few, item ∈ items)
    (continues : ∀ middle after, place ≤ middle → middle ≤ bytes.length →
      Outcome bytes (rest middle) (meetsRest middle) items middle after (next middle after)) :
    Outcome bytes (fun last => ∃ middle, value middle ∧ rest middle last)
      (meets ∨ ∃ middle, value middle ∧ meetsRest middle) items place memory
      (result >>= proceed next) := by
  cases outcome with
  | faults here failed =>
    refine .faults (.inl here) ?_
    rcases failed with rfl | rfl
    · exact .inl rfl
    · exact .inr rfl
  | returns free ptr after returned ends inside frame =>
    subst returned
    cases ptr with
    | none =>
      refine .returns ?_ none after rfl (fun last => ?_) nofun (frame.mono listed)
      · rintro (here | ⟨middle, found, -⟩)
        · exact free here
        · exact nomatch (ends middle).mp found
      · constructor
        · rintro ⟨middle, found, -⟩
          exact nomatch (ends middle).mp found
        · exact nofun
    | some middle =>
      have only : ∀ other, value other ↔ middle = other := fun other => by
        rw [ends, Option.some_inj]
      have bounds := inside middle rfl
      have behind := continues middle after bounds.1 bounds.2
      change Outcome bytes _ _ items place memory (next middle after)
      cases behind with
      | faults here failed =>
        exact .faults (.inr ⟨middle, (only middle).mpr rfl, here⟩) failed
      | returns free' ptr last returned ends' inside' frame' =>
        refine .returns ?_ ptr last returned (fun place => ?_) (fun place found => ?_)
          ((frame.mono listed).trans frame')
        · rintro (here | ⟨other, found, here⟩)
          · exact free here
          · obtain rfl := (only other).mp found
            exact free' here
        · rw [← ends']
          constructor
          · rintro ⟨other, found, ended⟩
            obtain rfl := (only other).mp found
            exact ended
          · exact fun ended => ⟨middle, (only middle).mpr rfl, ended⟩
        · exact ⟨Nat.le_trans bounds.1 (inside' place found).1, (inside' place found).2⟩

end Outcomes

def Takes (type : UInt8) (item : Option AmfItem) : Prop :=
  ∀ described, item = some described → amfReadItemTypeCheck type described.type = true

def ReadsBehind (input : Input) (readItem : ReadItem) (place : Nat) : Prop :=
  ∀ {next : Nat} {type : UInt8} {item : Option AmfItem} {memory : Memory}, place < next →
    next ≤ input.end → Takes type item →
    Outcome input.bytes (Value input.bytes type next) (MeetsValue input.bytes type item next)
      item.toList next memory (readItem next type item memory)

section Members

variable {bytes : List UInt8} {items : List AmfItem} {place next last : Nat} {name : List UInt8}
  {type : UInt8}

theorem MemberAt.unique {name' : List UInt8} {type' : UInt8} {next' : Nat}
    (one : MemberAt bytes place name type next) (two : MemberAt bytes place name' type' next') :
    name = name' ∧ type = type' ∧ next = next' :=
  ⟨one.nameText.trans two.nameText.symm, one.marker.trans two.marker.symm,
    one.next.trans two.next.symm⟩

theorem members_cons (member : MemberAt bytes place name type next) :
    Members bytes place last ↔
      ∃ middle, Value bytes type next middle ∧ Members bytes middle last := by
  constructor
  · intro members
    cases members with
    | nil closes =>
      obtain ⟨mark, ⟨-, empty, -⟩ | ⟨short, -⟩, -⟩ := closes
      · exact absurd member.named (by omega)
      · exact absurd member.fits (by omega)
    | cons member' value rest =>
      obtain ⟨rfl, rfl, rfl⟩ := member.unique member'
      exact ⟨_, value, rest⟩
  · rintro ⟨middle, value, rest⟩
    exact .cons member value rest

theorem members_nil (none : ∀ name type next, ¬MemberAt bytes place name type next) :
    Members bytes place last ↔ ClosesAt bytes place last := by
  constructor
  · intro members
    cases members with
    | nil closes => exact closes
    | cons member => exact absurd member (none _ _ _)
  · exact .nil

theorem meetsMembers_cons (member : MemberAt bytes place name type next) :
    MeetsMembers bytes items place ↔ MeetsValue bytes type (describing items name type) next ∨
      ∃ middle, Value bytes type next middle ∧ MeetsMembers bytes items middle := by
  constructor
  · intro meets
    cases meets with
    | here member' value =>
      obtain ⟨rfl, rfl, rfl⟩ := member.unique member'
      exact .inl value
    | later member' value rest =>
      obtain ⟨rfl, rfl, rfl⟩ := member.unique member'
      exact .inr ⟨_, value, rest⟩
  · rintro (value | ⟨middle, value, rest⟩)
    · exact .here member value
    · exact .later member value rest

theorem meetsMembers_nil (none : ∀ name type next, ¬MemberAt bytes place name type next) :
    ¬MeetsMembers bytes items place := by
  intro meets
  cases meets with
  | here member => exact none _ _ _ member
  | later member => exact none _ _ _ member

variable {count : Nat}

theorem elements_cons (inside : place < bytes.length) :
    Elements bytes (count + 1) place last ↔
      ∃ middle, Value bytes (bytes.getD place 0) (place + 1) middle ∧
        Elements bytes count middle last := by
  constructor
  · intro elements
    cases elements with
    | nil ended =>
      rcases ended with zero | ended
      · exact absurd zero (Nat.succ_ne_zero count)
      · exact absurd inside (by omega)
    | cons _ value rest => exact ⟨_, value, rest⟩
  · rintro ⟨middle, value, rest⟩
    exact .cons inside value rest

theorem elements_nil (ended : count = 0 ∨ bytes.length ≤ place) :
    Elements bytes count place last ↔ last = place := by
  constructor
  · intro elements
    cases elements with
    | nil => rfl
    | cons inside =>
      rcases ended with zero | ended
      · exact absurd zero (Nat.succ_ne_zero _)
      · exact absurd inside (by omega)
  · rintro rfl
    exact .nil ended

theorem meetsElements_cons (inside : place < bytes.length) :
    MeetsElements bytes items (count + 1) place ↔
      MeetsValue bytes (bytes.getD place 0) (items.head?.filter fun item =>
        amfReadItemTypeCheck (bytes.getD place 0) item.type) (place + 1) ∨
      ∃ middle, Value bytes (bytes.getD place 0) (place + 1) middle ∧
        MeetsElements bytes items.tail count middle := by
  constructor
  · intro meets
    cases meets with
    | here _ value => exact .inl value
    | later _ value rest => exact .inr ⟨_, value, rest⟩
  · rintro (value | ⟨middle, value, rest⟩)
    · exact .here inside value
    · exact .later inside value rest

theorem meetsElements_nil (ended : count = 0 ∨ bytes.length ≤ place) :
    ¬MeetsElements bytes items count place := by
  intro meets
  rcases ended with rfl | ended
  · cases meets
  · cases meets with
    | here inside => omega
    | later inside => omega

end Members

variable {type : UInt8}

theorem describing_listed {items : List AmfItem} {name : List UInt8} :
    ∀ item ∈ (describing items name type).toList, item ∈ items := by
  intro item found
  exact List.mem_of_find?_eq_some (Option.mem_toList.mp found)

theorem describing_takes {items : List AmfItem} {name : List UInt8} :
    Takes type (describing items name type) := by
  intro item found
  have both := List.find?_some found
  exact (of_decide_eq_true both).2

section Groups

variable {input : Input} {readItem : ReadItem} {items : List AmfItem} {place : Nat} {memory : Memory}

/-- What `amf_read_object` does behind its loop. -/
def objectEnd (input : Input) (ptr : Nat) (memory : Memory) : Reading :=
  if ptr < input.end then do
    let byte ← byteAt input ptr
    return (if amfObjectEnd = byte then some (ptr + 1) else none, memory)
  else .ok (none, memory)

theorem amfReadObject_eq :
    amfReadObject input readItem items place memory =
      objectLoop input readItem items (input.end + 1) place memory >>= proceed (objectEnd input) := by
  unfold amfReadObject
  rcases objectLoop input readItem items (input.end + 1) place memory with failed | ⟨_ | ptr, after⟩
  · rfl
  · rfl
  · rfl

theorem objectEnd_outcome {mark : Nat} (behind : place ≤ mark)
    (none : ∀ name type next, ¬MemberAt input.bytes place name type next)
    (here : place + 2 ≤ input.end ∧ u16At input.bytes place = 0 ∧ mark = place + 2 ∨
      input.end < place + 2 ∧ mark = place) :
    Outcome input.bytes (Members input.bytes place) (MeetsMembers input.bytes items place) items
      place memory (objectEnd input mark memory) := by
  have ends : ∀ next, Members input.bytes place next ↔
      mark < input.end ∧ input.bytes.getD mark 0 = amfObjectEnd ∧ next = mark + 1 := by
    intro next
    rw [members_nil none]
    constructor
    · rintro ⟨other, here', rest⟩
      obtain rfl : other = mark := by
        unfold Input.end at here
        omega
      exact rest
    · exact fun rest => ⟨mark, here, rest⟩
  have free : ¬MeetsMembers input.bytes items place := meetsMembers_nil none
  rcases Nat.lt_or_ge mark input.end with inside | beyond
  · by_cases closing : amfObjectEnd = input.bytes.getD mark 0
    · refine .returns free (some (mark + 1)) memory ?_ (fun next => ?_) ?_ (Frame.refl _ _)
      · unfold objectEnd
        rw [if_pos inside, byteAt_eq inside, ok_bind, if_pos closing]
        rfl
      · rw [ends, Option.some_inj]
        exact ⟨fun all => all.2.2.symm, fun same => ⟨inside, closing.symm, same.symm⟩⟩
      · rintro next ⟨⟩
        exact ⟨by omega, inside⟩
    · refine .returns free Option.none memory ?_ (fun next => ?_) nofun (Frame.refl _ _)
      · unfold objectEnd
        rw [if_pos inside, byteAt_eq inside, ok_bind, if_neg closing]
        rfl
      · rw [ends]
        exact ⟨fun all => absurd all.2.1.symm closing, nofun⟩
  · refine .returns free Option.none memory (if_neg (by omega)) (fun next => ?_) nofun
      (Frame.refl _ _)
    rw [ends]
    exact ⟨fun all => absurd all.1 (by omega), nofun⟩

theorem bind_proceed {result : Reading} {next last : Nat → Memory → Reading} :
    (result >>= proceed next) >>= proceed last =
      result >>= proceed fun ptr memory => next ptr memory >>= proceed last := by
  rw [bind_assoc]
  refine congrArg _ (funext fun found => ?_)
  rcases found with ⟨_ | ptr, after⟩
  · rfl
  · rfl

variable {fuel : Nat}

theorem objectLoop_turn (room : place + 2 ≤ input.end) :
    objectLoop input readItem items (fuel + 1) place memory =
      if u16At input.bytes place = 0 then .ok (some (place + 2), memory)
      else if input.end < place + 2 + u16At input.bytes place + 1 then .ok (none, memory)
      else
        readItem (place + 2 + u16At input.bytes place + 1)
          (input.bytes.getD (place + 2 + u16At input.bytes place) 0)
          (describing items ((input.bytes.drop (place + 2)).take (u16At input.bytes place))
            (input.bytes.getD (place + 2 + u16At input.bytes place) 0)) memory >>=
        proceed (objectLoop input readItem items fuel) := by
  rw [objectLoop, if_pos room, byteAt_eq (by omega), ok_bind, byteAt_eq (by omega), ok_bind]
  change (if u16At input.bytes place = 0 then _ else _) = _
  split
  · rfl
  · change (if input.end < place + 2 + u16At input.bytes place + 1 then _ else _) = _
    split
    · rfl
    · rename_i fits
      change (bytesAt input (place + 2) (u16At input.bytes place) >>= _) = _
      rw [bytesAt_eq (by omega), ok_bind]
      change (byteAt input (place + 2 + u16At input.bytes place) >>= _) = _
      rw [byteAt_eq (by omega), ok_bind]
      refine congrArg _ (funext fun found => ?_)
      rcases found with ⟨_ | ptr, after⟩
      · rfl
      · rfl

theorem objectLoop_outcome {lowest : Nat} (reads : ReadsBehind input readItem lowest)
    (behind : lowest ≤ place) (inside : place ≤ input.end) (enough : input.end - place < fuel) :
    Outcome input.bytes (Members input.bytes place) (MeetsMembers input.bytes items place) items
      place memory
      (objectLoop input readItem items fuel place memory >>= proceed (objectEnd input)) := by
  induction fuel generalizing place memory with
  | zero => exact absurd enough (Nat.not_lt_zero _)
  | succ fuel ih =>
    rcases Nat.lt_or_ge input.end (place + 2) with short | room
    · have none : ∀ name type next, ¬MemberAt input.bytes place name type next := by
        intro name type next member
        have fits := member.fits
        unfold Input.end at short
        omega
      rw [objectLoop, if_neg (by omega), ok_bind]
      exact objectEnd_outcome (Nat.le_refl place) none (.inr ⟨short, rfl⟩)
    · rw [objectLoop_turn room]
      by_cases empty : u16At input.bytes place = 0
      · have none : ∀ name type next, ¬MemberAt input.bytes place name type next :=
          fun name type next member => absurd member.named (by omega)
        rw [if_pos empty, ok_bind]
        exact objectEnd_outcome (Nat.le_add_right _ _) none (.inl ⟨room, empty, rfl⟩)
      · rcases Nat.lt_or_ge input.end (place + 2 + u16At input.bytes place + 1) with long | fits
        · have none : ∀ name type next, ¬MemberAt input.bytes place name type next := by
            intro name type next member
            have fits := member.fits
            unfold Input.end at long
            omega
          rw [if_neg empty, if_pos long]
          refine .returns (meetsMembers_nil none) Option.none memory rfl (fun next => ?_)
            nofun (Frame.refl _ _)
          rw [members_nil none]
          constructor
          · rintro ⟨mark, ⟨-, zero, -⟩ | ⟨beyond, -⟩, -⟩
            · exact absurd zero empty
            · unfold Input.end at room
              omega
          · exact nofun
        · have member : MemberAt input.bytes place
              ((input.bytes.drop (place + 2)).take (u16At input.bytes place))
              (input.bytes.getD (place + 2 + u16At input.bytes place) 0)
              (place + 2 + u16At input.bytes place + 1) :=
            ⟨Nat.pos_of_ne_zero empty, fits, rfl, rfl, rfl⟩
          rw [if_neg empty, if_neg (by omega), bind_proceed]
          refine ((Outcome.andThen (reads (by omega) fits describing_takes) describing_listed
            fun middle after later last => ih (by omega) last ?_).earlier (by omega)).congr
            (fun last => members_cons member) (meetsMembers_cons member)
          unfold Input.end at *
          omega

theorem object_outcome (reads : ReadsBehind input readItem place) (inside : place ≤ input.end) :
    Outcome input.bytes (Members input.bytes place) (MeetsMembers input.bytes items place) items
      place memory (amfReadObject input readItem items place memory) := by
  rw [amfReadObject_eq]
  exact objectLoop_outcome reads (Nat.le_refl place) inside (by omega)

theorem ecmaArray_outcome (reads : ReadsBehind input readItem place) :
    Outcome input.bytes (Value input.bytes amfEcmaArray place)
      (MeetsValue input.bytes amfEcmaArray item place) (itemsOf item) place memory
      (amfReadEcmaArray input readItem (itemsOf item) place memory) := by
  unfold amfReadEcmaArray
  rcases Nat.lt_or_ge input.end (place + 4) with short | fits
  · rw [if_pos short]
    refine .returns ?_ none memory rfl (fun next => ?_) nofun (Frame.refl _ _)
    · rw [meets_ecmaArray]
      exact fun both => absurd both.1 (Nat.not_le_of_lt short)
    · rw [value_ecmaArray]
      exact ⟨fun both => absurd both.1 (Nat.not_le_of_lt short), nofun⟩
  · rw [if_neg (by omega)]
    have behind : ReadsBehind input readItem (place + 4) :=
      fun later within takes => reads (by omega) within takes
    refine ((object_outcome behind fits).earlier (Nat.le_add_right _ _)).congr (fun next => ?_) ?_
    · rw [value_ecmaArray]
      exact ⟨fun both => both.2, fun members => ⟨fits, members⟩⟩
    · rw [meets_ecmaArray]
      exact ⟨fun both => both.2, fun members => ⟨fits, members⟩⟩

theorem filter_listed :
    ∀ item ∈ (items.head?.filter fun item => amfReadItemTypeCheck type item.type).toList,
      item ∈ items := by
  intro item found
  rw [Option.mem_toList, Option.filter_eq_some_iff] at found
  exact List.mem_of_mem_head? found.1

theorem filter_takes :
    Takes type (items.head?.filter fun item => amfReadItemTypeCheck type item.type) := by
  intro item found
  exact (Option.filter_eq_some_iff.mp found).2

theorem strictLoop_turn (inside : place < input.end) :
    strictLoop input readItem (fuel + 1) (count + 1) items place memory =
      readItem (place + 1) (input.bytes.getD place 0) (items.head?.filter fun item =>
        amfReadItemTypeCheck (input.bytes.getD place 0) item.type) memory >>=
      proceed (strictLoop input readItem fuel count items.tail) := by
  rw [strictLoop, if_pos ⟨Nat.succ_ne_zero count, inside⟩, byteAt_eq inside, ok_bind]
  refine congrArg _ (funext fun found => ?_)
  rcases found with ⟨_ | ptr, after⟩
  · rfl
  · rfl

theorem strictLoop_outcome {lowest : Nat} (reads : ReadsBehind input readItem lowest)
    (behind : lowest ≤ place) (inside : place ≤ input.end) (enough : input.end - place < fuel) :
    Outcome input.bytes (Elements input.bytes count place)
      (MeetsElements input.bytes items count place) items place memory
      (strictLoop input readItem fuel count items place memory) := by
  induction fuel generalizing count items place memory with
  | zero => exact absurd enough (Nat.not_lt_zero _)
  | succ fuel ih =>
    by_cases ended : count = 0 ∨ input.bytes.length ≤ place
    · have stops : ¬(count ≠ 0 ∧ place < input.end) := by
        unfold Input.end
        omega
      rw [strictLoop, if_neg stops]
      refine .returns (meetsElements_nil ended) (some place) memory rfl (fun next => ?_) ?_
        (Frame.refl _ _)
      · rw [elements_nil ended, Option.some_inj]
        exact eq_comm
      · rintro next ⟨⟩
        exact ⟨Nat.le_refl place, inside⟩
    · obtain ⟨more, here⟩ := not_or.mp ended
      have within : place < input.end := Nat.lt_of_not_le here
      obtain ⟨rest, rfl⟩ := Nat.exists_eq_succ_of_ne_zero more
      rw [strictLoop_turn within]
      refine ((Outcome.andThen (reads (by omega) within filter_takes) filter_listed
        fun middle after later last => ?_).earlier (by omega)).congr
        (fun last => elements_cons within) (meetsElements_cons within)
      · have further : input.end - middle < fuel := by
          unfold Input.end at *
          omega
        refine (ih (by omega) last further).mono fun item found => List.mem_of_mem_tail found

theorem strictArray_outcome (reads : ReadsBehind input readItem place) :
    Outcome input.bytes (Value input.bytes amfStrictArray place)
      (MeetsValue input.bytes amfStrictArray item place) (itemsOf item) place memory
      (amfReadStrictArray input readItem (itemsOf item) place memory) := by
  unfold amfReadStrictArray
  rcases Nat.lt_or_ge input.end (place + 4) with short | fits
  · rw [if_pos short]
    refine .returns ?_ none memory rfl (fun next => ?_) nofun (Frame.refl _ _)
    · rw [meets_strictArray]
      exact fun both => absurd both.1 (Nat.not_le_of_lt short)
    · rw [value_strictArray]
      exact ⟨fun both => absurd both.1 (Nat.not_le_of_lt short), nofun⟩
  · obtain ⟨count, read, same⟩ := amfReadInt32_fits fits
    rw [if_neg (by omega), read, ok_bind]
    dsimp only
    rw [same]
    refine ((strictLoop_outcome reads (Nat.le_add_right _ _) fits (by omega)).earlier
      (Nat.le_add_right _ _)).congr (fun next => ?_) ?_
    · rw [value_strictArray]
      exact ⟨fun both => both.2, fun elements => ⟨fits, elements⟩⟩
    · rw [meets_strictArray]
      exact ⟨fun both => both.2, fun elements => ⟨fits, elements⟩⟩

end Groups

/-! ## Every item -/

section Items

variable {input : Input} {place : Nat} {memory : Memory}

theorem Takes.same (takes : Takes type item) (other : type ≠ amfEcmaArray ∧ type ≠ amfNull) :
    ∀ described, item = some described → described.type = type := by
  intro described found
  rcases of_decide_eq_true (takes described found) with same | ⟨-, ecmaArray | null⟩
  · exact same.symm
  · exact absurd ecmaArray.symm other.1
  · exact absurd null.symm other.2

theorem nothing_outcome (listed : (type, 0) ∈ fixedSizes)
    (safe : ¬MeetsValue input.bytes type item place) (inside : place ≤ input.end) :
    Outcome input.bytes (Value input.bytes type place) (MeetsValue input.bytes type item place)
      item.toList place memory (.ok (some place, memory)) :=
  fixed_outcome 0 memory listed safe (fun short => by omega) (fun _ => rfl)
    fun _ => Frame.refl _ memory

theorem amfReadItem_outcome (inside : place ≤ input.end) (takes : Takes type item)
    (enough : input.end - place < fuel) :
    Outcome input.bytes (Value input.bytes type place) (MeetsValue input.bytes type item place)
      item.toList place memory (amfReadItem input fuel place type item memory) := by
  induction fuel generalizing place type item memory with
  | zero => exact absurd enough (Nat.not_lt_zero _)
  | succ fuel ih =>
    have reads : ReadsBehind input (amfReadItem input fuel) place :=
      fun later within takes => ih within takes (by omega)
    unfold amfReadItem
    by_cases boolean : type = amfBoolean
    · subst boolean
      exact boolean_outcome (takes.same (by decide))
    by_cases number : type = amfNumber
    · subst number
      exact number_outcome (takes.same (by decide))
    by_cases string : type = amfString
    · subst string
      exact string_outcome rfl (takes.same (by decide))
    by_cases longString : type = amfLongString
    · subst longString
      exact string_outcome rfl (takes.same (by decide))
    by_cases date : type = amfDate
    · subst date
      exact date_outcome (takes.same (by decide))
    by_cases object : type = amfObject
    · subst object
      exact ((object_outcome reads inside).congr (fun next => value_object) meets_object).group
    by_cases null : type = amfNull
    · subst null
      exact nothing_outcome (by decide) (scalar_safe (by decide) (by decide) (by decide)) inside
    by_cases undefined : type = amfUndefined
    · subst undefined
      exact nothing_outcome (by decide) (scalar_safe (by decide) (by decide) (by decide)) inside
    by_cases ecmaArray : type = amfEcmaArray
    · subst ecmaArray
      exact (ecmaArray_outcome reads).group
    by_cases strictArray : type = amfStrictArray
    · subst strictArray
      exact (strictArray_outcome reads).group
    rw [if_neg boolean, if_neg number, if_neg string, if_neg longString, if_neg date,
      if_neg object, if_neg null, if_neg undefined, if_neg ecmaArray, if_neg strictArray]
    refine .faults (.unknown ?_) (.inl rfl)
    simp [knownTypes, boolean, number, string, longString, date, object, null, undefined,
      ecmaArray, strictArray]

end Items

/-! ## Described values -/

/-- The values that items describe, one after the other, up to the end of the input. -/
inductive Described (bytes : List UInt8) : List AmfItem → Nat → Nat → Prop
  | nil {items : List AmfItem} {place : Nat} (ended : items = [] ∨ bytes.length ≤ place) :
      Described bytes items place place
  | cons {item : AmfItem} {items : List AmfItem} {place middle last : Nat}
      (inside : place < bytes.length)
      (same : amfReadItemTypeCheck (bytes.getD place 0) item.type = true)
      (value : Value bytes (bytes.getD place 0) (place + 1) middle)
      (rest : Described bytes items middle last) : Described bytes (item :: items) place last

section Described

variable {bytes : List UInt8} {item : AmfItem} {items : List AmfItem} {place last : Nat}

theorem described_cons (inside : place < bytes.length)
    (same : amfReadItemTypeCheck (bytes.getD place 0) item.type = true) :
    Described bytes (item :: items) place last ↔
      ∃ middle, Value bytes (bytes.getD place 0) (place + 1) middle ∧
        Described bytes items middle last := by
  constructor
  · intro described
    cases described with
    | nil ended =>
      rcases ended with none | ended
      · exact nomatch none
      · omega
    | cons _ _ value rest => exact ⟨_, value, rest⟩
  · rintro ⟨middle, value, rest⟩
    exact .cons inside same value rest

theorem meetsItems_cons (inside : place < bytes.length)
    (same : amfReadItemTypeCheck (bytes.getD place 0) item.type = true) :
    MeetsItems bytes (item :: items) place ↔
      MeetsValue bytes (bytes.getD place 0) (some item) (place + 1) ∨
      ∃ middle, Value bytes (bytes.getD place 0) (place + 1) middle ∧
        MeetsItems bytes items middle := by
  constructor
  · intro meets
    cases meets with
    | here _ _ value => exact .inl value
    | later _ _ value rest => exact .inr ⟨_, value, rest⟩
  · rintro (value | ⟨middle, value, rest⟩)
    · exact .here inside same value
    · exact .later inside same value rest

end Described

theorem itemsLoop_outcome {input : Input} {items : List AmfItem} {place : Nat} {memory : Memory}
    (inside : place ≤ input.end) :
    Outcome input.bytes (Described input.bytes items place) (MeetsItems input.bytes items place) items
      place memory (itemsLoop input (amfReadItem input (input.end + 1)) items place memory) := by
  induction items generalizing place memory with
  | nil =>
    refine .returns nofun (some place) memory rfl (fun next => ?_) ?_ (Frame.refl _ _)
    · rw [Option.some_inj]
      constructor
      · rintro ⟨⟩
        rfl
      · rintro rfl
        exact .nil (.inl rfl)
    · rintro next ⟨⟩
      exact ⟨Nat.le_refl place, inside⟩
  | cons item items ih =>
    rcases Nat.lt_or_ge place input.end with here | ended
    · by_cases same : amfReadItemTypeCheck (input.bytes.getD place 0) item.type = true
      · have turn : itemsLoop input (amfReadItem input (input.end + 1)) (item :: items) place memory =
            amfReadItem input (input.end + 1) (place + 1) (input.bytes.getD place 0) (some item)
              memory >>= proceed (itemsLoop input (amfReadItem input (input.end + 1)) items) := by
          rw [itemsLoop, if_pos here, byteAt_eq here, ok_bind, if_neg fun wrong => Bool.false_ne_true (wrong.symm.trans same)]
          refine congrArg _ (funext fun found => ?_)
          rcases found with ⟨_ | ptr, after⟩
          · rfl
          · rfl
        have takes : Takes (input.bytes.getD place 0) (some item) := by
          rintro described ⟨⟩
          exact same
        rw [turn]
        refine ((Outcome.andThen (amfReadItem_outcome here takes (by omega)) ?_
          fun middle after later last => ?_).earlier (Nat.le_succ place)).congr
          (fun last => described_cons here same) (meetsItems_cons here same)
        · simp
        · exact (ih last).mono fun other found => List.mem_cons_of_mem item found
      · have different : amfReadItemTypeCheck (input.bytes.getD place 0) item.type = false :=
          Bool.eq_false_iff.mpr same
        refine .returns ?_ none memory ?_ (fun next => ?_) nofun (Frame.refl _ _)
        · intro meets
          cases meets with
          | here _ taken => exact same taken
          | later _ taken => exact same taken
        · rw [itemsLoop, if_pos here, byteAt_eq here, ok_bind, if_pos different]
        · refine ⟨fun described => ?_, nofun⟩
          cases described with
          | nil ended =>
            rcases ended with none | ended
            · exact nomatch none
            · exact absurd here (Nat.not_lt_of_le ended)
          | cons _ taken => exact absurd taken same
    · refine .returns ?_ (some place) memory ?_ (fun next => ?_) ?_ (Frame.refl _ _)
      · intro meets
        cases meets with
        | here within => exact absurd within (Nat.not_lt_of_le ended)
        | later within => exact absurd within (Nat.not_lt_of_le ended)
      · rw [itemsLoop, if_neg (Nat.not_lt_of_le ended)]
      · rw [Option.some_inj]
        constructor
        · intro described
          cases described with
          | nil => rfl
          | cons within => exact absurd within (Nat.not_lt_of_le ended)
        · rintro rfl
          exact .nil (.inr ended)
      · rintro next ⟨⟩
        exact ⟨Nat.le_refl place, inside⟩

/-- A read ends with a pointer that is null or inside the input, and writes to slots alone. -/
def Safe (input : Input) (items : List AmfItem) (memory : Memory) (result : Reading) : Prop :=
  ∃ ptr after, result = .ok (ptr, after) ∧ (∀ next, ptr = some next → next ≤ input.end) ∧
    Frame items memory after

/-- The reader is safe unless its walk comes to a type that it does not know, or to a date with
nowhere to write it. -/
theorem amf_read_items_safe_iff (input : Input) (items : List AmfItem) (memory : Memory) :
    Safe input items memory (amfReadItems input items memory) ↔ ¬MeetsItems input.bytes items 0 := by
  have outcome := @itemsLoop_outcome input items 0 memory (Nat.zero_le _)
  constructor
  · rintro ⟨ptr, after, returned, -⟩
    unfold amfReadItems at returned
    rw [returned] at outcome
    cases outcome with
    | faults _ failed => rcases failed with failed | failed <;> cases failed
    | returns free => exact free
  · intro safe
    cases outcome with
    | faults met => exact absurd met safe
    | returns _ ptr after returned _ inside frame =>
      exact ⟨ptr, after, returned, fun next found => (inside next found).2, frame⟩

/-- An object with a date that no item describes. -/
def datedObject : Input :=
  ⟨[0x03, 0x00, 0x01, 0x61, 0x0B, 0x42, 0x76, 0x6D, 0x4B, 0x5C, 0x00, 0x00, 0x00, 0x00, 0x00, 0x00,
    0x00, 0x09], 0⟩

/-- An object with a value whose type is a reference to another object. -/
def referringObject : Input :=
  ⟨[0x03, 0x00, 0x01, 0x61, 0x07, 0x00, 0x00, 0x00, 0x00, 0x09], 0⟩

/-- The date is written through the null pointer, and the reference ends in an assertion. -/
theorem amf_read_items_unsafe :
    ¬Safe datedObject [.group ⟨amfObject, by decide⟩ [] []] (fun _ => 0)
        (amfReadItems datedObject [.group ⟨amfObject, by decide⟩ [] []] fun _ => 0) ∧
      ¬Safe referringObject [.group ⟨amfObject, by decide⟩ [] []] (fun _ => 0)
        (amfReadItems referringObject [.group ⟨amfObject, by decide⟩ [] []] fun _ => 0) := by
  have dated : amfReadItems datedObject [.group ⟨amfObject, by decide⟩ [] []] (fun _ => 0) =
      .error .null := rfl
  have referring : amfReadItems referringObject [.group ⟨amfObject, by decide⟩ [] []] (fun _ => 0) =
      .error .assertion := rfl
  constructor
  · rintro ⟨ptr, after, returned, -⟩
    exact nomatch dated.symm.trans returned
  · rintro ⟨ptr, after, returned, -⟩
    exact nomatch referring.symm.trans returned

end CLibs.Amf
