import EvProxy.Http.Request

/-!
# The grammar of request targets

What `split_absolute_url` accepts, as a grammar: a scheme, an authority without
a slash, then a path or nothing. `Splits` lists the four shapes of an authority
with the host and port each gives. Both directions hold, so the grammar answers
what an accepted URL looked like and what a URL put together from parts gives.
-/

namespace EvProxy
open Text

def openBracket : UInt8 := 91
def closeBracket : UInt8 := 93
def query : UInt8 := 63
def fragment : UInt8 := 35

/-- How an authority splits. A form without a port keeps the one already there. -/
inductive Splits (out : Request) : Bytes → Request → Prop where
  | name (host : Bytes) (plain : host.head? ≠ some openBracket) (single : colon ∉ host) :
      Splits out host { out with host := host }
  | namePort (host port : Bytes) (plain : (host ++ colon :: port).head? ≠ some openBracket) (last : colon ∉ port) :
      Splits out (host ++ colon :: port) { out with host := host, port := port }
  /-- Whatever follows the bracket is dropped, unless it starts with a colon. -/
  | literal (host rest : Bytes) (inside : closeBracket ∉ host) (other : rest.head? ≠ some colon) :
      Splits out (openBracket :: host ++ closeBracket :: rest) { out with host := host }
  | literalPort (host port : Bytes) (inside : closeBracket ∉ host) :
      Splits out (openBracket :: host ++ closeBracket :: colon :: port) { out with host := host, port := port }

theorem splitAuthority_splits {authority : Bytes} {out r : Request} (h : splitAuthority authority out = some r) :
    Splits out authority r := by
  unfold splitAuthority at h
  split at h
  · rename_i bracket
    obtain ⟨rest, rfl⟩ : ∃ rest, authority = openBracket :: rest := List.head?_eq_some_iff.mp bracket
    split at h
    · cases h
    · rename_i close found
      obtain ⟨cut, absent⟩ := find_singleton_eq_some found
      cases close with
      | zero => simp [openBracket] at cut
      | succ close =>
        have host : substr (openBracket :: rest) 1 (close + 1 - 1) = rest.take close := rfl
        have next : (openBracket :: rest)[close + 1 + 1]? = (rest.drop (close + 1)).head? := by
          simp [List.head?_drop]
        rw [List.take_succ_cons, List.mem_cons, not_or] at absent
        rw [cut]
        simp only [host, next] at h
        split at h
        · rename_i ported
          obtain ⟨port, tail⟩ := List.head?_eq_some_iff.mp ported
          have after : (openBracket :: rest).drop (close + 1 + 2) = port := by
            rw [List.drop_succ_cons, show close + 2 = close + 1 + 1 from rfl, ← List.drop_drop, tail]
            rfl
          cases h
          rw [List.drop_succ_cons, tail, after]
          exact .literalPort _ port absent.2
        · rename_i other
          cases h
          exact .literal _ _ absent.2 other
  · rename_i plain
    split at h
    · rename_i absent
      cases h
      exact .name authority plain (rfind_eq_none.mp absent)
    · rename_i i found
      obtain ⟨cut, last⟩ := rfind_eq_some found
      cases h
      rw [substr_zero]
      conv => arg 2; rw [cut]
      exact .namePort _ _ (cut ▸ plain) last

theorem Splits.splitAuthority {authority : Bytes} {out r : Request} (h : Splits out authority r) :
    splitAuthority authority out = some r := by
  -- the closing bracket is found behind the host, and what follows it is there
  have close {host : Bytes} (inside : closeBracket ∉ host) (rest : Bytes) :
      find [93] (openBracket :: host ++ closeBracket :: rest) = some (host.length + 1) :=
    find_singleton_append (by simpa [openBracket, closeBracket] using inside)
  have next (host rest : Bytes) :
      (openBracket :: host ++ closeBracket :: rest)[host.length + 1 + 1]? = rest.head? := by
    cases rest <;> simp
  cases h with
  | name host plain single =>
    have absent := rfind_eq_none.mpr single
    simp_all [EvProxy.splitAuthority, openBracket]
  | namePort host port plain last =>
    have found := rfind_append (p := host) last
    simp_all [EvProxy.splitAuthority, openBracket]
  | literal host rest inside other =>
    simp only [EvProxy.splitAuthority, close inside, next, if_neg other]
    simp [substr, openBracket]
  | literalPort host port inside =>
    simp only [EvProxy.splitAuthority, close inside, next]
    simp [substr, openBracket]

/-- Only host and port are written. -/
theorem Splits.only {authority : Bytes} {out r : Request} (h : Splits out authority r) :
    r = { out with host := r.host, port := r.port } := by
  cases h <;> rfl

/-- The host is a part of the authority. -/
theorem Splits.part {authority : Bytes} {out r : Request} (h : Splits out authority r) :
    r.host <:+: authority := by
  cases h with
  | name host => exact List.infix_rfl
  | namePort host port => exact (List.prefix_append _ _).isInfix
  | literal host rest => exact ⟨[openBracket], closeBracket :: rest, rfl⟩
  | literalPort host port => exact ⟨[openBracket], closeBracket :: colon :: port, rfl⟩

/-- The port is a part of the authority, unless it is the one already there. -/
theorem Splits.port_part {authority : Bytes} {out r : Request} (h : Splits out authority r) :
    r.port <:+ authority ∨ r.port = out.port := by
  cases h with
  | name host => exact Or.inr rfl
  | namePort host port => exact Or.inl ⟨host ++ [colon], by simp⟩
  | literal host rest => exact Or.inr rfl
  | literalPort host port => exact Or.inl ⟨openBracket :: host ++ [closeBracket, colon], by simp⟩

/-- What the checks accept. -/
theorem checkAuthority_iff {authority : Bytes} {out r : Request} :
    checkAuthority authority out = (true, r) ↔
      Splits out authority r ∧ r.host ≠ [] ∧ r.port ≠ [] ∧ allDigits r.port = true := by
  constructor
  · intro h
    unfold checkAuthority at h
    split at h
    · simp at h
    · split at h
      · simp at h
      · rename_i r' split_eq
        split at h
        · simp at h
        · rename_i nonempty
          obtain ⟨host, port⟩ := not_or.mp nonempty
          split at h
          · simp at h
          · rename_i digits
            simp only [Prod.mk.injEq, true_and] at h
            subst h
            exact ⟨splitAuthority_splits split_eq, host, port, by simpa using digits⟩
  · rintro ⟨splits, host, port, digits⟩
    have split_eq := splits.splitAuthority
    have nonempty : authority ≠ [] := by
      rintro rfl
      cases split_eq
      exact host rfl
    simp [checkAuthority, nonempty, split_eq, host, port, digits]

/-- A URL taken apart: an authority without a slash, then a path or nothing. -/
structure Parts (url scheme authority rest : Bytes) : Prop where
  whole : url = scheme ++ (authority ++ rest)
  scheme : lower scheme = bytes "http://"
  free : slash ∉ authority
  rest : rest = [] ∨ ∃ p, rest = slash :: p

/-- A missing path is "/". -/
def pathOf (rest : Bytes) : Bytes := if rest = [] then bytes "/" else rest

theorem pathOf_eq {rest : Bytes} (h : rest = [] ∨ ∃ p, rest = slash :: p) :
    (∃ p, pathOf rest = slash :: p) ∧ (rest = pathOf rest ∨ rest = [] ∧ pathOf rest = bytes "/") := by
  rcases h with rfl | ⟨p, rfl⟩
  · exact ⟨⟨[], by decide⟩, Or.inr ⟨rfl, rfl⟩⟩
  · exact ⟨⟨p, rfl⟩, Or.inl rfl⟩

theorem Parts.scheme_length {url scheme authority rest : Bytes} (h : Parts url scheme authority rest) :
    scheme.length = (bytes "http://").length := by
  rw [← h.scheme, lower, List.length_map]

/-- The two halves are found where the parts meet. -/
theorem Parts.splitAbsoluteUrl {url scheme authority rest : Bytes} (h : Parts url scheme authority rest)
    (out : Request) :
    splitAbsoluteUrl url out = checkAuthority authority { out with path := pathOf rest } := by
  have len := h.scheme_length
  have front : substr url 0 (bytes "http://").length = scheme := by
    rw [h.whole, substr_zero, ← len, List.take_left]
  have back : url.drop (bytes "http://").length = authority ++ rest := by
    rw [h.whole, ← len, List.drop_left]
  have bound : (bytes "http://").length ≤ url.length := by
    rw [h.whole, ← len, List.length_append]
    omega
  rw [EvProxy.splitAbsoluteUrl, front, h.scheme]
  rcases h.rest with rfl | ⟨p, rfl⟩
  · have none_left : findFrom [slash] (bytes "http://").length url = none := by
      rw [findFrom_eq_none bound, back, List.append_nil]
      exact find_singleton_eq_none.mpr h.free
    simp [none_left, back, pathOf]
  · have found : findFrom [slash] (bytes "http://").length url =
        some ((bytes "http://").length + authority.length) := by
      rw [findFrom_eq_some bound, back]
      exact find_singleton_append h.free
    simp [found, substr, back, ← List.drop_drop, pathOf]

/-- The bytes between the scheme and the next slash. -/
def authorityOf (url : Bytes) : Bytes := (url.drop (bytes "http://").length).takeWhile (· ≠ slash)

theorem parts_of_scheme {url : Bytes} (scheme : lower (substr url 0 (bytes "http://").length) = bytes "http://") :
    Parts url (url.take (bytes "http://").length) (authorityOf url)
      ((url.drop (bytes "http://").length).dropWhile (· ≠ slash)) where
  whole := by rw [authorityOf, List.takeWhile_append_dropWhile, List.take_append_drop]
  scheme := by rw [← substr_zero]; exact scheme
  free := by
    intro mem
    simpa using List.mem_takeWhile_imp mem
  rest := by
    cases left : (url.drop (bytes "http://").length).dropWhile (· ≠ slash) with
    | nil => exact Or.inl rfl
    | cons c p =>
      have stopped := List.head?_dropWhile_not (· ≠ slash) (url.drop (bytes "http://").length)
      rw [left] at stopped
      have first : c = slash := by simpa using stopped
      exact Or.inr ⟨p, by rw [first]⟩

/-- There is only one way to take a URL apart. -/
theorem Parts.authority_eq {url scheme authority rest : Bytes} (h : Parts url scheme authority rest) :
    authorityOf url = authority := by
  have all : ∀ c ∈ authority, decide (c ≠ slash) = true := by
    intro c mem
    have other : c ≠ slash := fun same => h.free (same ▸ mem)
    simpa using other
  rw [authorityOf, ← h.scheme_length, h.whole, List.drop_left, List.takeWhile_append_of_pos all]
  rcases h.rest with rfl | ⟨p, rfl⟩ <;> simp

/-- **The grammar of accepted URLs.** -/
theorem splitAbsoluteUrl_iff {url : Bytes} {out r : Request} :
    splitAbsoluteUrl url out = (true, r) ↔ ∃ scheme authority rest, Parts url scheme authority rest ∧
      Splits { out with path := pathOf rest } authority r ∧
      r.host ≠ [] ∧ r.port ≠ [] ∧ allDigits r.port = true := by
  constructor
  · intro h
    by_cases scheme : lower (substr url 0 (bytes "http://").length) = bytes "http://"
    · have parts := parts_of_scheme scheme
      rw [parts.splitAbsoluteUrl] at h
      exact ⟨_, _, _, parts, checkAuthority_iff.mp h⟩
    · rw [splitAbsoluteUrl, if_pos scheme] at h
      cases h
  · rintro ⟨scheme, authority, rest, parts, accepted⟩
    rw [parts.splitAbsoluteUrl]
    exact checkAuthority_iff.mpr accepted

/-! ## What an accepted URL does not say -/

/-- The four ways to write a host and a port; a missing port is 80. -/
inductive Spelling (host port : Bytes) : Bytes → Prop where
  | name (default : port = bytes "80") : Spelling host port host
  | namePort : Spelling host port (host ++ colon :: port)
  | literal (default : port = bytes "80") : Spelling host port (openBracket :: host ++ [closeBracket])
  | literalPort : Spelling host port (openBracket :: host ++ closeBracket :: colon :: port)

/-- The URL is the request's target written out, the scheme in any case and a
path of "/" perhaps left away, and the host has no byte of a later part. -/
structure Represents (url : Bytes) (r : Request) : Prop where
  spelled : ∃ scheme authority rest, url = scheme ++ (authority ++ rest) ∧ lower scheme = bytes "http://" ∧
    (rest = r.path ∨ rest = [] ∧ r.path = bytes "/") ∧ Spelling r.host r.port authority
  host_ne : r.host ≠ []
  host_slash : slash ∉ r.host
  host_query : query ∉ r.host
  host_fragment : fragment ∉ r.host

/-- What follows the first closing bracket. -/
def afterLiteral (authority : Bytes) : Bytes := (authority.dropWhile (· ≠ closeBracket)).drop 1

/-- No query or fragment before the first slash, and nothing but a port after a
bracketed literal. -/
structure Tidy (authority : Bytes) : Prop where
  no_query : query ∉ authority
  no_fragment : fragment ∉ authority
  after : authority.head? = some openBracket →
    afterLiteral authority = [] ∨ (afterLiteral authority).head? = some colon

theorem afterLiteral_eq {host : Bytes} (inside : closeBracket ∉ host) (rest : Bytes) :
    afterLiteral (openBracket :: host ++ closeBracket :: rest) = rest := by
  have all : ∀ c ∈ openBracket :: host, decide (c ≠ closeBracket) = true := by
    intro c mem
    have other : c ≠ closeBracket := by
      rintro rfl
      rcases List.mem_cons.mp mem with same | mem
      · cases same
      · exact inside mem
    simpa using other
  rw [afterLiteral, List.dropWhile_append_of_pos all]
  simp

/-- Bytes left after the bracket are in none of the four spellings. -/
theorem Spelling.nothing_after {host rest : Bytes} (other : rest.head? ≠ some colon)
    (h : Spelling host (bytes "80") (openBracket :: host ++ closeBracket :: rest)) : rest = [] := by
  generalize same : openBracket :: host ++ closeBracket :: rest = authority at h
  cases h with
  | name default =>
    have len := congrArg List.length same
    simp at len
    omega
  | namePort =>
    -- one byte is left, and the bracket would be the `8` of the port
    have eighty : bytes "80" = [56, 48] := by decide
    have len := congrArg List.length same
    simp [eighty] at len
    obtain ⟨last, rfl⟩ := List.length_eq_one_iff.mp (show rest.length = 1 by omega)
    have ends : (openBracket :: host ++ [closeBracket]) ++ [last] = (host ++ [colon, 56]) ++ [48] := by
      simpa [eighty] using same
    have front := (List.append_inj' ends rfl).1
    have ends' : (openBracket :: host) ++ [closeBracket] = (host ++ [colon]) ++ [56] := by simpa using front
    cases (List.append_inj' ends' rfl).2
  | literal default => simpa using same
  | literalPort =>
    have tail : rest = colon :: bytes "80" := by simpa using same
    rw [tail] at other
    exact absurd rfl other

/-- A byte that is no digit and none of the separators comes from the host. -/
theorem Spelling.mem_iff {host port authority : Bytes} (h : Spelling host port authority)
    (digits : allDigits port = true) {c : UInt8} (other : isDigit c = false) (separator : c ≠ colon)
    (opening : c ≠ openBracket) (closing : c ≠ closeBracket) : c ∈ authority ↔ c ∈ host := by
  have outside : c ∉ port := not_mem_of_allDigits digits other
  cases h <;> simp [separator, opening, closing, outside]

/-- Which authorities are one of the four spellings of what they give. -/
theorem Splits.spelling_iff {authority : Bytes} {out r : Request} (h : Splits out authority r)
    (fresh : out.port = bytes "80") (digits : allDigits r.port = true) :
    (Spelling r.host r.port authority ∧ query ∉ r.host ∧ fragment ∉ r.host) ↔ Tidy authority := by
  constructor
  · rintro ⟨spelling, no_query, no_fragment⟩
    have from_host {c : UInt8} := spelling.mem_iff (c := c) digits
    refine ⟨?_, ?_, ?_⟩
    · rwa [from_host (by decide) (by decide) (by decide) (by decide)]
    · rwa [from_host (by decide) (by decide) (by decide) (by decide)]
    · intro bracket
      cases h with
      | name host plain => exact absurd bracket plain
      | namePort host port plain => exact absurd bracket plain
      | literal host rest inside other =>
        rw [afterLiteral_eq inside]
        rw [fresh] at spelling
        exact Or.inl (spelling.nothing_after other)
      | literalPort host port inside =>
        rw [afterLiteral_eq inside]
        exact Or.inr rfl
  · intro tidy
    refine ⟨?_, fun mem => tidy.no_query (h.part.subset mem), fun mem => tidy.no_fragment (h.part.subset mem)⟩
    cases h with
    | name host => exact .name fresh
    | namePort host port => exact .namePort
    | literal host rest inside other =>
      have after := tidy.after rfl
      rw [afterLiteral_eq inside] at after
      rcases after with rfl | ported
      · exact .literal fresh
      · exact absurd ported other
    | literalPort host port => exact .literalPort

/-- **What an accepted URL leaves out.** The URL represents the request made from
it exactly when its authority is tidy: otherwise a query or fragment has become
part of the host, or bytes after a bracketed literal have been dropped. -/
theorem splitAbsoluteUrl_represents {url : Bytes} {r : Request} (h : splitAbsoluteUrl url {} = (true, r)) :
    Represents url r ↔ Tidy (authorityOf url) := by
  obtain ⟨scheme, authority, rest, parts, splits, host_ne, -, digits⟩ := splitAbsoluteUrl_iff.mp h
  have path : r.path = pathOf rest := by rw [splits.only]
  have host_slash : slash ∉ r.host := fun mem => parts.free (splits.part.subset mem)
  rw [parts.authority_eq, ← splits.spelling_iff rfl digits]
  constructor
  · rintro ⟨⟨scheme', authority', rest', whole, scheme_eq, path', spelling⟩, -, -, no_query, no_fragment⟩
    have parts' : Parts url scheme' authority' rest' := by
      refine ⟨whole, scheme_eq, ?_, ?_⟩
      · rwa [spelling.mem_iff digits (by decide) (by decide) (by decide) (by decide)]
      · rcases path' with same | ⟨empty, -⟩
        · rw [same, path]
          exact Or.inr (pathOf_eq parts.rest).1
        · exact Or.inl empty
    rw [← parts.authority_eq, parts'.authority_eq]
    exact ⟨spelling, no_query, no_fragment⟩
  · rintro ⟨spelling, no_query, no_fragment⟩
    refine ⟨⟨scheme, authority, rest, parts.whole, parts.scheme, ?_, spelling⟩, host_ne, host_slash,
      no_query, no_fragment⟩
    rw [path]
    exact (pathOf_eq parts.rest).2

/-- A tidy bracketed literal with its port. -/
theorem splitAbsoluteUrl_represents_literal :
    Represents (bytes "http://[::1]:8080/a") { host := bytes "::1", port := bytes "8080", path := bytes "/a" } :=
  (splitAbsoluteUrl_represents (by decide)).mpr ⟨by decide, by decide, by decide⟩

/-- A query without a path becomes part of the host. -/
theorem splitAbsoluteUrl_query_in_host :
    splitAbsoluteUrl (bytes "http://origin?q") {} = (true, { host := bytes "origin?q" }) ∧
      ¬ Represents (bytes "http://origin?q") { host := bytes "origin?q" } := by
  refine ⟨by decide, ?_⟩
  intro represents
  exact represents.host_query (by decide)

/-- Bytes between a literal and its port are dropped, and the port with them. -/
example : splitAbsoluteUrl (bytes "http://[::1]x:81/") {} = (true, { host := bytes "::1" }) := by decide

end EvProxy
