import Courier.Http.Request
import Courier.Proofs.Text.Numeral

/-! # How addresses are written

An address is read from a scheme, a host, a port or none, and a path or none, one behind the other,
and from no other text. It is written back in full, and what is written back is read as the same
address.
-/

namespace Courier

/-! ## What is written -/

namespace Endpoint

/-- What may stand for the port of an endpoint behind its host: nothing for the scheme's own port,
if the host has no colon, and otherwise a colon and decimal digits. -/
inductive WritesPort (e : Endpoint) (sign : String) : String → Prop
  | none (hport : e.port = e.scheme.defaultPort) (hne : e.host ≠ "")
      (hcolon : ':' ∉ e.host.toList) : WritesPort e sign ""
  | digits {digits : String} (hsign : sign = "" ∨ sign = "+") (hne : digits ≠ "")
      (hdigits : ∀ c ∈ digits.toList, c.isDigit = true)
      (hvalue : Nat.ofDigitChars 10 digits.toList 0 = e.port) (hlt : e.port < 65536) :
      WritesPort e sign (":" ++ sign ++ digits)

theorem WritesPort.port_lt {e : Endpoint} {sign port : String} (h : e.WritesPort sign port) :
    e.port < 65536 := by
  cases h with
  | none hport =>
    rw [hport]
    cases e.scheme <;> decide
  | digits _ _ _ _ hlt => exact hlt

theorem writesPort_toString {e : Endpoint} (h : e.port < 65536) :
    e.WritesPort "" (":" ++ "" ++ toString e.port) := by
  have hlist : (toString e.port).toList = Nat.toDigits 10 e.port := by
    rw [Nat.toString_eq_repr, Nat.repr_eq_ofList_toDigits, String.toList_ofList]
  obtain ⟨-, hdigits, hvalue⟩ :=
    Text.spells_ten_iff.mp (Text.Spells.toDigits (by decide) (by decide) e.port)
  rw [← hlist] at hdigits hvalue
  exact .digits (.inl rfl) (by simp) hdigits hvalue h

end Endpoint

namespace Address

/-- What may stand for a path: the path itself, or a path of one slash may be left out, also before
a query. -/
inductive WritesPath : String → String → Prop
  | none : WritesPath "/" ""
  | path (rest : String) : WritesPath ("/" ++ rest) ("/" ++ rest)
  | query (rest : String) : WritesPath ("/" ++ ("?" ++ rest)) ("?" ++ rest)

/-- The texts of an address, with the sign that stands before the digits of the port. -/
inductive Writes (a : Address) (sign : String) : String → Prop
  | intro {port target : String} (hhost : ∀ c ∈ a.endpoint.host.toList, c ≠ '/' ∧ c ≠ '?')
      (hport : a.endpoint.WritesPort sign port) (hpath : WritesPath a.path target) :
      Writes a sign (a.endpoint.scheme.name ++ "://" ++ a.endpoint.host ++ port ++ target)

/-! ## Schemes -/

theorem after?_eq_some_iff {block cs rest : List Char} :
    after? block cs = some rest ↔ cs = block ++ rest := by
  induction block generalizing cs with
  | nil => simp [after?]
  | cons b block ih =>
    cases cs with
    | nil => simp [after?]
    | cons c cs =>
      unfold after?
      by_cases hbc : b = c
      · simp [hbc, ih]
      · simp [hbc, Ne.symm hbc]

theorem scheme?_append (scheme : Scheme) (rest : List Char) :
    scheme? ((scheme.name ++ "://").toList ++ rest) = some (scheme, rest) := by
  cases scheme with
  | http =>
    have h : after? "http://".toList ((Scheme.http.name ++ "://").toList ++ rest) = some rest :=
      after?_eq_some_iff.mpr rfl
    rw [scheme?, h]
  | https =>
    have h : after? "http://".toList ((Scheme.https.name ++ "://").toList ++ rest) = none := rfl
    have h' : after? "https://".toList ((Scheme.https.name ++ "://").toList ++ rest) = some rest :=
      after?_eq_some_iff.mpr rfl
    rw [scheme?, h, h']
    rfl

theorem eq_of_scheme? {cs rest : List Char} {scheme : Scheme}
    (h : scheme? cs = some (scheme, rest)) : cs = (scheme.name ++ "://").toList ++ rest := by
  unfold scheme? at h
  split at h
  · rename_i hs
    cases h
    exact after?_eq_some_iff.mp hs
  · obtain ⟨r, hs, heq⟩ := Option.map_eq_some_iff.mp h
    cases heq
    exact after?_eq_some_iff.mp hs

/-! ## Endpoints -/

theorem splitLastColon_eq_none_iff {cs : List Char} : splitLastColon cs = none ↔ ':' ∉ cs := by
  induction cs with
  | nil => simp [splitLastColon]
  | cons c cs ih =>
    unfold splitLastColon
    cases hs : splitLastColon cs with
    | none =>
      have hcs : ':' ∉ cs := ih.mp hs
      by_cases hc : c = ':'
      · simp [hc]
      · simp [hc, hcs, Ne.symm hc]
    | some sides =>
      have hcs : ':' ∈ cs := Decidable.not_not.mp fun hn => by simp [ih.mpr hn] at hs
      simp [hcs]

theorem splitLastColon_append (host : List Char) {port : List Char} (h : ':' ∉ port) :
    splitLastColon (host ++ ':' :: port) = some (host, port) := by
  induction host with
  | nil => simp [splitLastColon, splitLastColon_eq_none_iff.mpr h]
  | cons c host ih => simp only [List.cons_append, splitLastColon, ih]

theorem eq_append_of_splitLastColon {cs host port : List Char}
    (h : splitLastColon cs = some (host, port)) : cs = host ++ ':' :: port := by
  induction cs generalizing host port with
  | nil => cases h
  | cons c cs ih =>
    unfold splitLastColon at h
    split at h
    · rename_i before behind hs
      cases h
      exact congrArg (c :: ·) (ih hs)
    · split at h
      · rename_i hc
        cases h
        exact congrArg (· :: cs) hc
      · cases h

theorem decimal?_eq_some_iff {port : List Char} {n : Nat} :
    Text.decimal? 65536 (String.ofList port) = some n ↔
      n < 65536 ∧ ∃ sign digits : String, (sign = "" ∨ sign = "+") ∧ digits ≠ "" ∧
        (∀ c ∈ digits.toList, c.isDigit = true) ∧ Nat.ofDigitChars 10 digits.toList 0 = n ∧
        port = sign.toList ++ digits.toList := by
  rw [Text.decimal?, Text.numeral?_eq_some_iff, String.toList_ofList]
  refine and_congr_right fun _ => ⟨?_, ?_⟩
  · rintro ⟨cs, hport, hs⟩
    obtain ⟨hne, hdigits, hvalue⟩ := Text.spells_ten_iff.mp hs
    have hne' : String.ofList cs ≠ "" := by simpa using hne
    rcases hport with rfl | rfl
    · exact ⟨"", String.ofList port, .inl rfl, hne', by simpa using hdigits, by simpa using hvalue,
        by simp⟩
    · exact ⟨"+", String.ofList cs, .inr rfl, hne', by simpa using hdigits, by simpa using hvalue,
        by simp⟩
  · rintro ⟨sign, digits, hsign, hne, hdigits, hvalue, rfl⟩
    refine ⟨digits.toList, ?_, Text.spells_ten_iff.mpr ⟨by simpa using hne, hdigits, hvalue⟩⟩
    rcases hsign with rfl | rfl
    · exact .inl rfl
    · exact .inr rfl

theorem endpoint?_eq_ok_iff {scheme : Scheme} {authority : List Char} {e : Endpoint} :
    endpoint? scheme authority = .ok e ↔ e.scheme = scheme ∧
      ∃ sign port, e.WritesPort sign port ∧ authority = e.host.toList ++ port.toList := by
  constructor
  · intro h
    unfold endpoint? at h
    split at h
    · cases h
    · rename_i hne
      split at h
      · rename_i hs
        cases h
        refine ⟨rfl, "", "", .none rfl (by simpa using hne) ?_, by simp⟩
        simpa using splitLastColon_eq_none_iff.mp hs
      · rename_i host port hs
        split at h
        · rename_i n hn
          cases h
          obtain ⟨hlt, sign, digits, hsign, hne, hdigits, hvalue, rfl⟩ := decimal?_eq_some_iff.mp hn
          refine ⟨rfl, sign, _, .digits hsign hne hdigits hvalue hlt, ?_⟩
          simpa using eq_append_of_splitLastColon hs
        · cases h
  · rintro ⟨rfl, sign, port, hport, rfl⟩
    cases hport with
    | none hport hne hcolon =>
      have hne' : e.host.toList ≠ [] := by simpa using hne
      simp [endpoint?, hne, splitLastColon_eq_none_iff.mpr hcolon, ← hport]
    | @digits digits hsign hne hdigits hvalue hlt =>
      have hcolon : ':' ∉ sign.toList ++ digits.toList := by
        intro hm
        rcases List.mem_append.mp hm with hm | hm
        · rcases hsign with rfl | rfl <;> simp at hm
        · exact absurd (hdigits _ hm) (by decide)
      have hn : Text.decimal? 65536 (String.ofList (sign.toList ++ digits.toList)) = some e.port :=
        decimal?_eq_some_iff.mpr ⟨hlt, sign, digits, hsign, hne, hdigits, hvalue, rfl⟩
      have htext : e.host.toList ++ (":" ++ sign ++ digits).toList =
          e.host.toList ++ ':' :: (sign.toList ++ digits.toList) := by simp
      rw [htext, endpoint?, if_neg (by simp), splitLastColon_append _ hcolon]
      dsimp only
      rw [hn, String.ofList_toList]

theorem inAuthority_iff {c : Char} : inAuthority c = true ↔ c ≠ '/' ∧ c ≠ '?' := by
  simp [inAuthority]

theorem inAuthority_of_writesPort {e : Endpoint} {sign port : String}
    (h : e.WritesPort sign port) : ∀ c ∈ port.toList, inAuthority c = true := by
  cases h with
  | none => simp
  | @digits digits hsign _ hdigits =>
    intro c hc
    rw [inAuthority_iff]
    have hm : c = ':' ∨ c ∈ sign.toList ∨ c ∈ digits.toList := by simpa using hc
    rcases hm with rfl | hm | hm
    · decide
    · rcases hsign with rfl | rfl
      · simp at hm
      · obtain rfl : c = '+' := by simpa using hm
        decide
    · constructor
      all_goals
        rintro rfl
        exact absurd (hdigits _ hm) (by decide)

/-! ## Paths -/

theorem not_inAuthority_iff {target : List Char} : target.takeWhile inAuthority = [] ↔
    target = [] ∨ (∃ rest, target = '/' :: rest) ∨ ∃ rest, target = '?' :: rest := by
  cases target with
  | nil => simp
  | cons c rest =>
    by_cases hc : inAuthority c = true
    · obtain ⟨hslash, hquery⟩ := inAuthority_iff.mp hc
      simp [hc, hslash, hquery]
    · have hend : c = '/' ∨ c = '?' := by
        rwa [inAuthority_iff, Decidable.not_and_iff_not_or_not, Decidable.not_not,
          Decidable.not_not] at hc
      simp [hc, hend]

theorem writesPath_rooted {target : List Char} (h : target.takeWhile inAuthority = []) :
    WritesPath (String.ofList (rooted target)) (String.ofList target) := by
  rcases not_inAuthority_iff.mp h with rfl | ⟨rest, rfl⟩ | ⟨rest, rfl⟩
  · exact .none
  · simpa [rooted] using WritesPath.path (String.ofList rest)
  · simpa [rooted] using WritesPath.query (String.ofList rest)

theorem WritesPath.rooted_eq {path target : String} (h : WritesPath path target) :
    String.ofList (rooted target.toList) = path := by
  cases h with
  | none => rfl
  | path rest => simp [rooted]
  | query rest => simp [rooted]

theorem WritesPath.not_inAuthority {path target : String} (h : WritesPath path target) :
    target.toList.takeWhile inAuthority = [] := by
  cases h with
  | none => rfl
  | path rest => simp [inAuthority]
  | query rest => simp [inAuthority]

/-! ## Reading what is written -/

variable {u : String} {a : Address}

theorem ofChars_eq_ok_iff {cs : List Char} : ofChars cs = .ok a ↔
    ∃ rest, scheme? cs = some (a.endpoint.scheme, rest) ∧
      endpoint? a.endpoint.scheme (rest.takeWhile inAuthority) = .ok a.endpoint ∧
      String.ofList (rooted (rest.dropWhile inAuthority)) = a.path := by
  constructor
  · intro h
    unfold ofChars at h
    split at h
    · cases h
    · rename_i scheme rest hs
      split at h
      · cases h
      · rename_i e he
        cases h
        obtain ⟨rfl, -⟩ := endpoint?_eq_ok_iff.mp he
        exact ⟨rest, hs, he, rfl⟩
  · rintro ⟨rest, hs, he, hpath⟩
    simp only [ofChars, hs, he, hpath]

theorem parse_eq_ok_iff_ofChars : parse u = .ok a ↔ ofChars u.toList = .ok a := by
  unfold parse
  cases ofChars u.toList with
  | ok address => simp
  | error fault => simp

/-- What stands before the path and what stands there are told apart where the authority ends. -/
theorem parts_append {authority target : List Char}
    (ha : ∀ c ∈ authority, inAuthority c = true) (ht : target.takeWhile inAuthority = []) :
    (authority ++ target).takeWhile inAuthority = authority ∧
      (authority ++ target).dropWhile inAuthority = target := by
  have hdrop := List.takeWhile_append_dropWhile (p := inAuthority) (l := target)
  rw [ht, List.nil_append] at hdrop
  exact ⟨by rw [List.takeWhile_append_of_pos ha, ht, List.append_nil],
    by rw [List.dropWhile_append_of_pos ha, hdrop]⟩

theorem takeWhile_dropWhile (cs : List Char) :
    (cs.dropWhile inAuthority).takeWhile inAuthority = [] := by
  induction cs with
  | nil => rfl
  | cons c cs ih =>
    rw [List.dropWhile_cons]
    split
    · exact ih
    · rename_i hc
      exact List.takeWhile_cons_of_neg hc

theorem exists_writes (h : parse u = .ok a) : ∃ sign, a.Writes sign u := by
  obtain ⟨rest, hs, he, hpath⟩ := ofChars_eq_ok_iff.mp (parse_eq_ok_iff_ofChars.mp h)
  obtain ⟨-, sign, port, hport, hauthority⟩ := endpoint?_eq_ok_iff.mp he
  have hu : u = a.endpoint.scheme.name ++ "://" ++ a.endpoint.host ++ port ++
      String.ofList (rest.dropWhile inAuthority) := by
    rw [← String.toList_inj, eq_of_scheme? hs]
    simp only [String.toList_append, String.toList_ofList, List.append_assoc]
    rw [← List.append_assoc a.endpoint.host.toList, ← hauthority, List.takeWhile_append_dropWhile]
  have hhost : ∀ c ∈ a.endpoint.host.toList, c ≠ '/' ∧ c ≠ '?' := fun c hc =>
    inAuthority_iff.mp (List.all_eq_true.mp List.all_takeWhile c
      (hauthority ▸ List.mem_append_left _ hc))
  rw [hu]
  exact ⟨sign, .intro hhost hport (hpath ▸ writesPath_rooted (takeWhile_dropWhile rest))⟩

theorem Writes.parse_eq {sign : String} (h : a.Writes sign u) : parse u = .ok a := by
  obtain @⟨port, target, hhost, hport, hpath⟩ := h
  have ha : ∀ c ∈ a.endpoint.host.toList ++ port.toList, inAuthority c = true := fun c hc =>
    (List.mem_append.mp hc).elim (fun hm => inAuthority_iff.mpr (hhost c hm))
      (inAuthority_of_writesPort hport c)
  obtain ⟨htake, hdrop⟩ := parts_append ha hpath.not_inAuthority
  refine parse_eq_ok_iff_ofChars.mpr (ofChars_eq_ok_iff.mpr
    ⟨a.endpoint.host.toList ++ port.toList ++ target.toList, ?_, ?_, ?_⟩)
  · rw [← scheme?_append]
    simp only [String.toList_append, List.append_assoc]
  · rw [htake]
    exact endpoint?_eq_ok_iff.mpr ⟨rfl, sign, port, hport, rfl⟩
  · rw [hdrop]
    exact hpath.rooted_eq

theorem parse_eq_ok_iff : parse u = .ok a ↔ ∃ sign, a.Writes sign u :=
  ⟨exists_writes, fun ⟨_, h⟩ => h.parse_eq⟩

theorem Writes.unique {sign sign' : String} {a' : Address} (h : a.Writes sign u)
    (h' : a'.Writes sign' u) : a = a' := by
  cases h.parse_eq.symm.trans h'.parse_eq
  rfl

theorem parse_cases (u : String) : (∃ a, parse u = .ok a) ∨
    ∃ fault : Fault, parse u = .error (.configuration "uri" (fault.message ++ ": " ++ u)) := by
  unfold parse
  cases ofChars u.toList with
  | ok address => exact .inl ⟨address, rfl⟩
  | error fault => exact .inr ⟨fault, rfl⟩

/-! ## Writing in full -/

theorem WritesPath.self {path target : String} (h : WritesPath path target) :
    WritesPath path path := by
  cases h with
  | none => exact .path ""
  | path rest => exact .path rest
  | query rest => exact .path ("?" ++ rest)

theorem WritesPath.exists_eq {path target : String} (h : WritesPath path target) :
    ∃ rest, path = "/" ++ rest := by
  cases h with
  | none => exact ⟨"", rfl⟩
  | path rest => exact ⟨rest, rfl⟩
  | query rest => exact ⟨"?" ++ rest, rfl⟩

theorem Writes.text {sign : String} (h : a.Writes sign u) : a.Writes "" a.text := by
  obtain @⟨port, target, hhost, hport, hpath⟩ := h
  have htext : a.text = a.endpoint.scheme.name ++ "://" ++ a.endpoint.host ++
      (":" ++ "" ++ toString a.endpoint.port) ++ a.path := by
    simp [Address.text, Endpoint.text, String.append_assoc]
  rw [htext]
  exact .intro hhost (Endpoint.writesPort_toString hport.port_lt) hpath.self

end Address

namespace Request

theorem parse_eq_ok_iff {method : Method} {u : String} {r : Request} :
    parse method u = .ok r ↔
      Address.parse u = .ok r.address ∧ r = ⟨method, r.address, .empty, .empty⟩ := by
  unfold parse
  cases Address.parse u with
  | error e => simp
  | ok a =>
    simp only [Except.ok.injEq]
    constructor
    · rintro rfl
      exact ⟨rfl, rfl⟩
    · rintro ⟨rfl, hr⟩
      exact hr.symm

/-- What a request writes as its address is read as the same address, and the text it was made of
holds its host, the digits of its port and its path as they are, and can be taken for no other
address. -/
theorem uri_round_trip {method : Method} {u : String} {r : Request}
    (h : parse method u = .ok r) :
    (∀ other, parse other r.uri = .ok { r with method := other }) ∧
      (∃ rest, r.path = "/" ++ rest) ∧
      (∃ sign, r.address.Writes sign u) ∧
      ∀ a sign, Address.Writes a sign u → a = r.address := by
  obtain ⟨ha, hr⟩ := parse_eq_ok_iff.mp h
  obtain ⟨sign, hw⟩ := Address.exists_writes ha
  refine ⟨fun other => ?_, ?_, ⟨sign, hw⟩, fun a sign' hw' => hw'.unique hw⟩
  · refine parse_eq_ok_iff.mpr ⟨hw.text.parse_eq, ?_⟩
    rw [hr]
  · obtain @⟨_, _, _, _, hpath⟩ := hw
    exact hpath.exists_eq

theorem uri_round_trip_second_colon :
    parse .get "http://a:b:+0080?x=1" = .ok ⟨.get, ⟨⟨.http, "a:b", 80⟩, "/?x=1"⟩, .empty, .empty⟩ ∧
      parse .get "http://a:b:80/?x=1" =
        .ok ⟨.get, ⟨⟨.http, "a:b", 80⟩, "/?x=1"⟩, .empty, .empty⟩ := by
  have h : parse .get "http://a:b:+0080?x=1" =
      .ok ⟨.get, ⟨⟨.http, "a:b", 80⟩, "/?x=1"⟩, .empty, .empty⟩ := rfl
  exact ⟨h, (uri_round_trip h).1 .get⟩

/-- A request is made of the texts of an address: a scheme, a host and a port. Where the port is
written out the host may be empty, and a plus sign may stand before its digits. Of any other text
none is made. -/
theorem accepts_iff (method : Method) (u : String) :
    (∀ a, parse method u = .ok ⟨method, a, .empty, .empty⟩ ↔ ∃ sign, a.Writes sign u) ∧
      ((∃ a, parse method u = .ok ⟨method, a, .empty, .empty⟩) ∨
        ∃ fault : Address.Fault,
          parse method u = .error (.configuration "uri" (fault.message ++ ": " ++ u))) := by
  refine ⟨fun a => ?_, ?_⟩
  · rw [parse_eq_ok_iff, ← Address.parse_eq_ok_iff]
    exact and_iff_left rfl
  · rcases Address.parse_cases u with ⟨a, ha⟩ | ⟨fault, hf⟩
    · exact .inl ⟨a, parse_eq_ok_iff.mpr ⟨ha, rfl⟩⟩
    · exact .inr ⟨fault, by rw [parse, hf]⟩

/-- A request is made of a text that gives no host. -/
theorem accepts_no_host :
    parse .get "http://:80/" = .ok ⟨.get, ⟨⟨.http, "", 80⟩, "/"⟩, .empty, .empty⟩ ∧
    ¬ ∃ a : Address, a.Writes "" "http://:80/" ∧ a.endpoint.host ≠ "" := by
  have h : Address.parse "http://:80/" = .ok ⟨⟨.http, "", 80⟩, "/"⟩ := rfl
  refine ⟨rfl, fun ⟨a, hw, hne⟩ => hne ?_⟩
  cases h.symm.trans hw.parse_eq
  rfl

end Request

end Courier
