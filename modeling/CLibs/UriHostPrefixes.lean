import CLibs.UriFragments

/-!
# The texts that lead the first pass into a host

`HostPrefix` describes them without the states of the pass: a scheme with its `://`, a userinfo or
an address in brackets, and whatever may follow inside an authority.  The pass is in its state for
hosts exactly behind such a text, and the components it has found so far stand in it.
-/

namespace CLibs.Uris

open List

/-- A text that the first pass takes for a scheme or a host. -/
def SchemeText (name : List UInt8) : Prop :=
  name.head? ≠ some openBracket ∧ ∀ c ∈ name, Plain c ∨ c = openBracket ∨ c = closeBracket

def AddressText (text : List UInt8) : Prop := ∀ c ∈ text, Plain c ∨ c = colon

/-- The texts behind which the first pass reads a host.  The character behind the first colon is
not looked at. -/
inductive HostPrefix : List UInt8 → Prop
  | scheme (name : List UInt8) : SchemeText name → HostPrefix (name ++ [colon, slash, slash])
  | user (name : List UInt8) : SchemeText name → HostPrefix (name ++ [atSign])
  | password (name : List UInt8) (c : UInt8) (text : List UInt8) : SchemeText name →
      uriCharactersCheck c = true → c ≠ slash → (∀ x ∈ text, Plain x) →
      HostPrefix (name ++ colon :: c :: text ++ [atSign])
  | address (text : List UInt8) : AddressText text →
      HostPrefix (openBracket :: text ++ [closeBracket])
  | plain (front : List UInt8) (c : UInt8) : HostPrefix front → Plain c → HostPrefix (front ++ [c])
  | userinfo (front : List UInt8) : HostPrefix front → HostPrefix (front ++ [atSign])
  | port (front text : List UInt8) : HostPrefix front → (∀ x ∈ text, Plain x) →
      HostPrefix (front ++ colon :: text ++ [atSign])
  | bracket (front text : List UInt8) : HostPrefix front → AddressText text →
      HostPrefix (front ++ openBracket :: text ++ [closeBracket])

/-- What the first pass has found stands in the text that it has read. -/
structure Marks (items : Items) (front : List UInt8) : Prop where
  host : items.hasHost = true
  scheme : items.hasScheme = true → ∃ name rest,
    front = name ++ colon :: slash :: slash :: rest ∧ (colon ∉ name ∧ atSign ∉ name) ∧
      (items.hasUserinfo = true → atSign ∈ rest)
  userinfo : items.hasScheme = false → items.hasUserinfo = true → atSign ∈ front

/-- All that was found stands in front of the last character. -/
def MarksBefore (items : Items) (text : List UInt8) : Prop :=
  ∃ front c rest, text = front ++ c :: rest ∧ Marks items front

section Marks

variable {items : Items} {front text : List UInt8}

theorem Marks.append (marks : Marks items front) (more : List UInt8) :
    Marks items (front ++ more) := by
  refine ⟨marks.host, fun scheme => ?_, fun none user => ?_⟩
  · obtain ⟨name, rest, rfl, free, user⟩ := marks.scheme scheme
    exact ⟨name, rest ++ more, by simp, free, fun found => mem_append_left _ (user found)⟩
  · exact mem_append_left _ (marks.userinfo none user)

theorem Marks.port (marks : Marks items front) (port : Bool) :
    Marks { items with hasPort := port } front :=
  ⟨marks.host, marks.scheme, marks.userinfo⟩

theorem Marks.informed (marks : Marks items front) (more : List UInt8) (port : Bool) :
    Marks { items with hasPort := port, hasUserinfo := true } (front ++ (more ++ [atSign])) := by
  refine ⟨marks.host, fun scheme => ?_, fun _ _ => by simp⟩
  obtain ⟨name, rest, rfl, free, -⟩ := marks.scheme scheme
  exact ⟨name, rest ++ (more ++ [atSign]), by simp, free, fun _ => by simp⟩

theorem MarksBefore.append (before : MarksBefore items text) (more : List UInt8) :
    MarksBefore items (text ++ more) := by
  obtain ⟨front, c, rest, rfl, marks⟩ := before
  exact ⟨front, c, rest ++ more, by simp, marks⟩

theorem bare_marks (port : Bool) (front : List UInt8) :
    Marks { noItems with hasHost := true, hasPort := port } front :=
  ⟨rfl, nofun, fun _ => nofun⟩

theorem behindUserinfo_ne_nil {c : UInt8} {rest : List UInt8}
    (user : items.hasUserinfo = true → atSign ∈ front) :
    behindUserinfo items (front ++ c :: rest) ≠ [] := by
  cases has : items.hasUserinfo with
  | false => simp [behindUserinfo, has]
  | true =>
    obtain ⟨before, behind, rfl, free⟩ := eq_append_cons_of_mem (user has)
    have left : (before ++ (atSign :: behind ++ c :: rest)).dropWhile
        (fun x => decide (x ≠ atSign)) = atSign :: (behind ++ c :: rest) :=
      dropWhile_delimiter_iff.mpr ⟨rfl, before, rfl, free⟩
    rw [append_assoc, behindUserinfo, if_pos has, left]
    simp

theorem MarksBefore.hostStart_ne_nil (before : MarksBefore items text) :
    hostStart items text ≠ [] := by
  obtain ⟨front, c, rest, rfl, marks⟩ := before
  unfold hostStart behindScheme
  cases has : items.hasScheme with
  | false => exact behindUserinfo_ne_nil fun user => marks.userinfo has user
  | true =>
    obtain ⟨name, more, rfl, free, user⟩ := marks.scheme has
    have left : (name ++ (colon :: slash :: slash :: more ++ c :: rest)).dropWhile
        (fun x => decide (x ≠ colon)) = colon :: slash :: slash :: (more ++ c :: rest) :=
      dropWhile_delimiter_iff.mpr ⟨rfl, name, rfl, free.1⟩
    rw [if_pos rfl, append_assoc, left]
    exact behindUserinfo_ne_nil user

end Marks

/-! ## From the texts to the states -/

section Prefixes

variable {items : Items} {front tail : List UInt8} {name : List UInt8}

theorem SchemeText.reads (text : SchemeText name) :
    uriCheckFrom .scheme items (name ++ tail) = uriCheckFrom .scheme items tail := by
  refine uriCheckFrom_chunk fun c member rest => ?_
  rcases text.2 c member with plain | rfl | rfl
  · exact plain.stays (by decide) rest
  · rfl
  · rfl

theorem SchemeText.starts (text : SchemeText name) {c : UInt8}
    (valid : uriCharactersCheck c = true) (notSlash : c ≠ slash) (notBracket : c ≠ openBracket) :
    uriCheck (name ++ c :: tail) =
      uriCheckFrom .scheme { noItems with hasHost := true } (c :: tail) := by
  rw [← text.reads]
  cases name with
  | nil => simp [uriCheck, valid, notSlash, notBracket]
  | cons d name =>
    have bracket : d ≠ openBracket := fun same => text.1 (congrArg some same)
    rcases text.2 d mem_cons_self with plain | rfl | rfl
    · simp [uriCheck, plain.1, plain.ne.2.1, bracket]
    · exact absurd rfl bracket
    · rfl

theorem SchemeText.colon_notin (text : SchemeText name) : colon ∉ name := by
  intro member
  rcases text.2 colon member with plain | clash | clash
  · exact plain.ne.1 rfl
  · cases clash
  · cases clash

theorem SchemeText.atSign_notin (text : SchemeText name) : atSign ∉ name := by
  intro member
  rcases text.2 atSign member with plain | clash | clash
  · exact plain.ne.2.2.2.2.2.2 rfl
  · cases clash
  · cases clash

theorem AddressText.atSign_notin {text : List UInt8} (address : AddressText text) :
    atSign ∉ text := by
  intro member
  rcases address atSign member with plain | clash
  · exact plain.ne.2.2.2.2.2.2 rfl
  · cases clash

theorem HostPrefix.check (host : HostPrefix front) :
    ∃ items, Marks items front ∧ (atSign ∈ front → items.hasUserinfo = true) ∧
      ∀ tail, uriCheck (front ++ tail) = uriCheckFrom .host items tail := by
  induction host with
  | scheme name text =>
    refine ⟨{ noItems with hasHost := true, hasScheme := true },
      ⟨rfl, fun _ => ⟨name, [], rfl, ⟨text.colon_notin, text.atSign_notin⟩, nofun⟩, nofun⟩, fun member => ?_,
      fun tail => ?_⟩
    · rcases mem_append.mp member with inside | clash
      · exact absurd inside text.atSign_notin
      · revert clash
        decide
    · rw [append_assoc, cons_append, text.starts (by decide) (by decide) (by decide)]
      rfl
  | user name text =>
    refine ⟨{ noItems with hasHost := true, hasUserinfo := true },
      ⟨rfl, nofun, fun _ _ => by simp⟩, fun _ => rfl, fun tail => ?_⟩
    rw [append_assoc, cons_append, text.starts (by decide) (by decide) (by decide)]
    rfl
  | password name c text scheme valid notSlash plain =>
    refine ⟨{ noItems with hasHost := true, hasUserinfo := true },
      ⟨rfl, nofun, fun _ _ => by simp⟩, fun _ => rfl, fun tail => ?_⟩
    have reads : uriCheckFrom .authority { noItems with hasHost := true }
        (c :: (text ++ atSign :: tail)) =
        uriCheckFrom .host { noItems with hasHost := true, hasUserinfo := true } tail := by
      rw [uriCheckFrom_authority valid notSlash, uriCheckFrom_plain (by decide) plain]
      rfl
    have whole : name ++ colon :: c :: text ++ [atSign] ++ tail =
        name ++ colon :: (c :: (text ++ atSign :: tail)) := by simp
    rw [whole, scheme.starts (by decide) (by decide) (by decide)]
    exact reads
  | address text address =>
    refine ⟨{ noItems with hasHost := true }, bare_marks false _, fun member => ?_, fun tail => ?_⟩
    · rw [cons_append, mem_cons, mem_append] at member
      rcases member with clash | inside | clash
      · cases clash
      · exact absurd inside address.atSign_notin
      · revert clash
        decide
    · have whole : openBracket :: text ++ [closeBracket] ++ tail =
          openBracket :: (text ++ closeBracket :: tail) := by simp
      rw [whole]
      exact uriCheckFrom_ipv6 address
  | plain front c host plain ih =>
    obtain ⟨items, marks, user, check⟩ := ih
    refine ⟨items, marks.append [c], fun member => ?_, fun tail => ?_⟩
    · rcases mem_append.mp member with inside | clash
      · exact user inside
      · exact absurd (mem_singleton.mp clash).symm plain.ne.2.2.2.2.2.2
    · rw [append_assoc, check, singleton_append, plain.stays (by decide)]
  | userinfo front host ih =>
    obtain ⟨items, marks, user, check⟩ := ih
    refine ⟨{ items with hasUserinfo := true }, marks.informed [] items.hasPort, fun _ => rfl,
      fun tail => ?_⟩
    rw [append_assoc, check]
    rfl
  | port front text host plain ih =>
    obtain ⟨items, marks, user, check⟩ := ih
    refine ⟨{ items with hasPort := false, hasUserinfo := true }, ?_, fun _ => rfl,
      fun tail => ?_⟩
    · rw [append_assoc]
      exact marks.informed (colon :: text) false
    · have reads : uriCheckFrom .port { items with hasPort := true } (text ++ atSign :: tail) =
          uriCheckFrom .host { items with hasPort := false, hasUserinfo := true } tail := by
        rw [uriCheckFrom_plain (by decide) plain]
        rfl
      have whole : front ++ colon :: text ++ [atSign] ++ tail =
          front ++ colon :: (text ++ atSign :: tail) := by simp
      rw [whole, check]
      exact reads
  | bracket front text host address ih =>
    obtain ⟨items, marks, user, check⟩ := ih
    refine ⟨items, ?_, fun member => ?_, fun tail => ?_⟩
    · rw [append_assoc]
      exact marks.append _
    · rw [append_assoc, cons_append, mem_append, mem_cons,
        mem_append] at member
      rcases member with inside | clash | inside | clash
      · exact user inside
      · cases clash
      · exact absurd inside address.atSign_notin
      · exact absurd clash (by decide)
    · have whole : front ++ openBracket :: text ++ [closeBracket] ++ tail =
          front ++ openBracket :: (text ++ closeBracket :: tail) := by simp
      rw [whole, check]
      exact uriCheckFrom_ipv6 address

end Prefixes

end CLibs.Uris
