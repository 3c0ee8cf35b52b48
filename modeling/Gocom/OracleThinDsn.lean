import Gocom.DatabaseDsn

/-!
# Thin connection strings of Oracle

The thin form has no scheme behind which its address begins. Its user and password are taken off,
and what is left goes to the parser of the common form, which does not find a scheme in it.
-/

namespace Gocom

open TextCuts

namespace DBConnectionPoolOptions

/-- `user/password@host:port:sid`. -/
def thinSid (user password host : Bytes) (port : ℕ) (sid : Bytes) : Bytes :=
  user ++ slash :: (password ++ atSign :: (host ++ colon :: (decimal port ++ colon :: sid)))

/-- `user/password@//host:port/service`. -/
def thinService (user password host : Bytes) (port : ℕ) (service : Bytes) : Bytes :=
  user ++ slash :: (password ++ atSign :: (slash :: slash ::
    (host ++ colon :: (decimal port ++ slash :: service))))

def thinOptions (o : DBConnectionPoolOptions) (text : Bytes) : DBConnectionPoolOptions :=
  { o with dsn := asciiBytes "jdbc:" ++ (thinPrefix ++ text) }

/-- The text is read without an error, and to the fields that both forms have. -/
structure ReadsThin (user password host : Bytes) (port : ℕ) (r : Option Bytes × DBConnectionPoolOptions) :
    Prop where
  noError : r.1 = none
  engine : r.2.engine = some .oracle
  user : r.2.user = user
  password : r.2.password = password
  host : r.2.host = host
  port : r.2.port = port

/-- Letters, digits, dots and underscores. -/
def IsPlain (s : Bytes) : Prop := ∀ b ∈ s, isParamByte b = true

instance (s : Bytes) : Decidable (IsPlain s) :=
  decidable_of_iff (s.all isParamByte = true) List.all_eq_true

theorem paramByte_ne (b : UInt8) (h : isParamByte b = true) : b ≠ slash ∧ b ≠ atSign ∧ b ≠ 40 := by
  refine ⟨?_, ?_, ?_⟩ <;> rintro rfl <;> exact absurd h (by decide)

section Thin

variable {user password host text : Bytes}

theorem IsPlain.notMem {s : Bytes} (h : IsPlain s) : slash ∉ s ∧ atSign ∉ s ∧ 40 ∉ s :=
  ⟨fun hb => (paramByte_ne _ (h _ hb)).1 rfl, fun hb => (paramByte_ne _ (h _ hb)).2.1 rfl,
    fun hb => (paramByte_ne _ (h _ hb)).2.2 rfl⟩

/-- Two slashes in a row are two slashes. -/
theorem not_infix_of_count {sep s : Bytes} (hsep : 2 ≤ sep.count slash) (hs : s.count slash ≤ 1) :
    ¬ sep <:+: s := by
  intro h
  have hle := h.sublist.count_le slash
  omega

theorem not_prefix_of_notMem {b : UInt8} {w s : Bytes} (h : b ∉ s) : ¬ b :: w <+: s := fun hp =>
  h (hp.subset List.mem_cons_self)

variable (l : UnicodeLower)

/-- An address that is left over has no scheme. -/
theorem parseThin_error (o : DBConnectionPoolOptions) {address : Bytes}
    (hstart : ¬ asciiBytes "@" <+: text ∧ ¬ asciiBytes "//" <+: text)
    (hrest : (o.readThinUser text).2 = address) (hopen : 40 ∉ address) (hat : atSign ∉ address)
    (hslash : address.count slash ≤ 1) :
    (o.parseThin l text).1 =
      some (asciiBytes "Parsing database connection string:" ++ address ++ asciiBytes " with invalid format") := by
  have hcommon : ¬ asciiBytes "(" <+: address ∧ ¬ asciiBytes "@(" <+: address :=
    ⟨not_prefix_of_notMem hopen, not_prefix_of_notMem hat⟩
  have hcut : cutAt (asciiBytes "://") address = (address, none) :=
    cutAt_whole (not_infix_of_count (by decide) hslash)
  rw [parseThin, if_pos hstart]
  dsimp only
  rw [hrest, if_pos hcommon, parseCommonDSN, hcut]

theorem parseDSN_thin (o : DBConnectionPoolOptions) (text : Bytes) :
    (o.thinOptions text).parseDSN l =
      parseThin l { o.thinOptions text with engine := some .oracle, port := 1521 } text := by
  have hne : asciiBytes "jdbc:" ++ (thinPrefix ++ text) ≠ [] :=
    List.append_ne_nil_of_left_ne_nil (by decide) _
  have hwithout : withoutJdbc (asciiBytes "jdbc:" ++ (thinPrefix ++ text)) = thinPrefix ++ text :=
    if_pos (List.prefix_append _ _)
  rw [parseDSN, thinOptions, if_neg hne]
  dsimp only
  rw [hwithout, if_pos (List.prefix_append _ _), List.drop_left]

/-- Neither form begins with its address. -/
theorem thin_start (huser : IsPlain user) (hpassword : IsPlain password) (rest : Bytes) :
    ¬ asciiBytes "@" <+: user ++ slash :: (password ++ atSign :: rest) ∧
      ¬ asciiBytes "//" <+: user ++ slash :: (password ++ atSign :: rest) := by
  have hat : asciiBytes "@" = [atSign] := by decide
  have hslashes : asciiBytes "//" = [slash, slash] := by decide
  rw [hat, hslashes]
  cases user with
  | cons c user =>
    obtain ⟨hslash, hatSign, -⟩ := paramByte_ne c (huser c List.mem_cons_self)
    exact ⟨fun hp => hatSign (List.cons_prefix_cons.mp hp).1.symm,
      fun hp => hslash (List.cons_prefix_cons.mp hp).1.symm⟩
  | nil =>
    refine ⟨fun hp => absurd (List.cons_prefix_cons.mp hp).1 (by decide), fun hp => ?_⟩
    have hnext := (List.cons_prefix_cons.mp hp).2
    cases password with
    | nil => exact absurd (List.cons_prefix_cons.mp hnext).1 (by decide)
    | cons c password =>
      exact (paramByte_ne c (hpassword c List.mem_cons_self)).1 (List.cons_prefix_cons.mp hnext).1.symm

/-- An address of either form has no at sign and no bracket, and one slash at most. -/
theorem address_bytes (hhost : IsPlain host) (port : ℕ) {service : Bytes} (hservice : IsPlain service)
    {c : UInt8} (hc : c = colon ∨ c = slash) :
    40 ∉ host ++ colon :: (decimal port ++ c :: service) ∧
      atSign ∉ host ++ colon :: (decimal port ++ c :: service) ∧
      (host ++ colon :: (decimal port ++ c :: service)).count slash ≤ 1 := by
  have hdecimal : (decimal port).count slash = 0 := List.count_eq_zero.mpr (notMem_decimal (by decide))
  have hnotMem : ∀ b : UInt8, b ∉ host → b ∉ service → b ≠ colon → b ≠ c →
      b.toNat ≠ 45 ∧ ¬ (48 ≤ b.toNat ∧ b.toNat ≤ 57) →
      b ∉ host ++ colon :: (decimal port ++ c :: service) := by
    intro b hb hb' hcolon hne hrange
    simp only [List.mem_append, List.mem_cons, not_or]
    exact ⟨hb, hcolon, notMem_decimal hrange, hne, hb'⟩
  refine ⟨hnotMem 40 hhost.notMem.2.2 hservice.notMem.2.2 (by decide) ?_ (by decide),
    hnotMem atSign hhost.notMem.2.1 hservice.notMem.2.1 (by decide) ?_ (by decide), ?_⟩
  · rcases hc with rfl | rfl <;> decide
  · rcases hc with rfl | rfl <;> decide
  · rw [List.count_append, List.count_cons_of_ne (by decide), List.count_append, hdecimal,
      List.count_eq_zero.mpr hhost.notMem.1, List.count_cons, List.count_eq_zero.mpr hservice.notMem.1]
    split_ifs <;> decide

theorem readThinUser_thinSid (o : DBConnectionPoolOptions) (huser : IsPlain user)
    (hpassword : IsPlain password) (hhost : IsPlain host) (port : ℕ) {sid : Bytes} (hsid : IsPlain sid) :
    (o.readThinUser (thinSid user password host port sid)).2 =
      host ++ colon :: (decimal port ++ colon :: sid) := by
  have hdecimal : (decimal port).count slash = 0 := List.count_eq_zero.mpr (notMem_decimal (by decide))
  have hone : (thinSid user password host port sid).count slash ≤ 1 := by
    simp only [thinSid, List.count_append, List.count_cons, hdecimal,
      List.count_eq_zero.mpr huser.notMem.1, List.count_eq_zero.mpr hpassword.notMem.1,
      List.count_eq_zero.mpr hhost.notMem.1, List.count_eq_zero.mpr hsid.notMem.1]
    decide
  have htwo : ¬ Contains (thinSid user password host port sid) (asciiBytes "//") :=
    not_infix_of_count (by decide) hone
  have hauth : atSign ∉ user ++ slash :: password := by
    simp only [List.mem_append, List.mem_cons, not_or]
    exact ⟨huser.notMem.2.1, by decide, hpassword.notMem.2.1⟩
  have hcut : splitN2 (thinSid user password host port sid) atSign =
      (user ++ slash :: password, some (host ++ colon :: (decimal port ++ colon :: sid))) :=
    splitN2_append_cons hauth _
  rw [readThinUser, if_neg htwo, hcut]
  rfl

theorem readThinUser_thinService (o : DBConnectionPoolOptions) (huser : IsPlain user)
    (hpassword : IsPlain password) (port : ℕ) (service : Bytes) :
    (o.readThinUser (thinService user password host port service)).2 =
      host ++ colon :: (decimal port ++ slash :: service) := by
  have hslashes : asciiBytes "//" = [slash, slash] := by decide
  have htwo : Contains (thinService user password host port service) (asciiBytes "//") := by
    refine ⟨user ++ slash :: (password ++ [atSign]), host ++ colon :: (decimal port ++ slash :: service), ?_⟩
    rw [thinService, hslashes]
    simp only [List.append_assoc, List.cons_append, List.nil_append]
  have hfirst : slash ∉ password ++ [atSign] := by
    simp only [List.mem_append, List.mem_singleton, not_or]
    exact ⟨hpassword.notMem.1, by decide⟩
  have hempty : IsPlain [] := fun b hb => absurd hb List.not_mem_nil
  -- the slash before the password has another letter behind it
  have hnext : ¬ asciiBytes "//" <+: slash :: (password ++ atSign :: (slash :: slash ::
      (host ++ colon :: (decimal port ++ slash :: service)))) :=
    (thin_start hempty hpassword _).2
  have hcut : cutAt (asciiBytes "//") (thinService user password host port service) =
      (user ++ slash :: (password ++ [atSign]),
        some (host ++ colon :: (decimal port ++ slash :: service))) := by
    have hbehind := cutAt_first (t := [slash]) hfirst (host ++ colon :: (decimal port ++ slash :: service))
    rw [List.append_assoc] at hbehind
    rw [hslashes] at hnext ⊢
    rw [thinService, cutAt_append huser.notMem.1, cutAt, if_neg hnext]
    exact congrArg (fun r => (user ++ slash :: r.1, r.2)) hbehind
  rw [readThinUser, if_pos htwo, hcut]
  rfl

theorem parseDSN_thinSid (o : DBConnectionPoolOptions) (huser : IsPlain user) (hpassword : IsPlain password)
    (hhost : IsPlain host) (port : ℕ) {sid : Bytes} (hsid : IsPlain sid) :
    ((o.thinOptions (thinSid user password host port sid)).parseDSN l).1 ≠ none := by
  obtain ⟨hopen, hat, hslash⟩ := address_bytes hhost port hsid (.inl rfl)
  have herror := parseThin_error l
    { o.thinOptions (thinSid user password host port sid) with engine := some .oracle, port := 1521 }
    (thin_start huser hpassword _) (readThinUser_thinSid _ huser hpassword hhost port hsid) hopen hat hslash
  rw [parseDSN_thin]
  exact fun hnone => Option.some_ne_none _ (herror.symm.trans hnone)

theorem parseDSN_thinService (o : DBConnectionPoolOptions) (huser : IsPlain user)
    (hpassword : IsPlain password) (hhost : IsPlain host) (port : ℕ) {service : Bytes}
    (hservice : IsPlain service) :
    ((o.thinOptions (thinService user password host port service)).parseDSN l).1 ≠ none := by
  obtain ⟨hopen, hat, hslash⟩ := address_bytes hhost port hservice (.inr rfl)
  have herror := parseThin_error l
    { o.thinOptions (thinService user password host port service) with engine := some .oracle, port := 1521 }
    (thin_start huser hpassword _) (readThinUser_thinService _ huser hpassword port service) hopen hat hslash
  rw [parseDSN_thin]
  exact fun hnone => Option.some_ne_none _ (herror.symm.trans hnone)

/-- Neither thin form is ever read: for both the parser of the common form reports an error. -/
theorem parseDSN_thin_fails (o : DBConnectionPoolOptions) (huser : IsPlain user)
    (hpassword : IsPlain password) (hhost : IsPlain host) (port : ℕ) {service : Bytes}
    (hservice : IsPlain service) :
    ¬ (ReadsThin user password host port
          ((o.thinOptions (thinSid user password host port service)).parseDSN l) ∧
        ((o.thinOptions (thinSid user password host port service)).parseDSN l).2.serviceID = service) ∧
      ¬ (ReadsThin user password host port
          ((o.thinOptions (thinService user password host port service)).parseDSN l) ∧
        ((o.thinOptions (thinService user password host port service)).parseDSN l).2.serviceName =
          service) :=
  ⟨fun h => parseDSN_thinSid l o huser hpassword hhost port hservice h.1.noError,
    fun h => parseDSN_thinService l o huser hpassword hhost port hservice h.1.noError⟩

end Thin

theorem parseDSN_thin_fails_scott :
    ¬ (ReadsThin (asciiBytes "scott") (asciiBytes "tiger") (asciiBytes "db") 1521
          ((thinOptions {} (thinSid (asciiBytes "scott") (asciiBytes "tiger") (asciiBytes "db") 1521
            (asciiBytes "orcl"))).parseDSN asciiLower) ∧
        ((thinOptions {} (thinSid (asciiBytes "scott") (asciiBytes "tiger") (asciiBytes "db") 1521
            (asciiBytes "orcl"))).parseDSN asciiLower).2.serviceID = asciiBytes "orcl") ∧
      ¬ (ReadsThin (asciiBytes "scott") (asciiBytes "tiger") (asciiBytes "db") 1521
          ((thinOptions {} (thinService (asciiBytes "scott") (asciiBytes "tiger") (asciiBytes "db") 1521
            (asciiBytes "orcl"))).parseDSN asciiLower) ∧
        ((thinOptions {} (thinService (asciiBytes "scott") (asciiBytes "tiger") (asciiBytes "db") 1521
            (asciiBytes "orcl"))).parseDSN asciiLower).2.serviceName = asciiBytes "orcl") :=
  parseDSN_thin_fails asciiLower {} (by decide) (by decide) (by decide) 1521 (by decide)

/-- The form with a service identifier is not read. -/
theorem parseDSN_thin_scott :
    ¬ ReadsThin (asciiBytes "scott") (asciiBytes "tiger") (asciiBytes "db") 1521
      ((thinOptions {} (thinSid (asciiBytes "scott") (asciiBytes "tiger") (asciiBytes "db") 1521
        (asciiBytes "orcl"))).parseDSN asciiLower) :=
  fun h => absurd h.noError (by decide)

end DBConnectionPoolOptions
end Gocom
