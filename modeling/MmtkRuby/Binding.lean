import MmtkRuby.Basic

/-!
# The binding's settings

The two chunk sizes of the weak tables come from the environment and are used as they are.
-/

namespace MmtkRuby

/-- The value of a string of decimal digits, most significant first, if it fits `usize`. -/
def parseDigits (acc : ℕ) : List Char → Option ℕ
  | [] => some acc
  | c :: cs =>
    if c.isDigit then
      let acc' := acc * 10 + (c.toNat - '0'.toNat)
      if acc' < usizeSize then parseDigits acc' cs else none
    else none

/-- `str::parse::<usize>`: an optional `+`, then at least one digit and nothing else. -/
def parseUsize (s : String) : Option ℕ :=
  match s.toList with
  | [] => none
  | ['+'] => none
  | '+' :: cs => parseDigits 0 cs
  | cs => parseDigits 0 cs

/-- `env_default::<usize>`, given what `std::env::var(name).ok()` returns. -/
def envDefault (var : Option String) (default : ℕ) : ℕ :=
  (var.bind parseUsize).getD default

/-- The settings of `RubyBinding` that the weak tables read. -/
structure RubyBinding where
  stEntriesChunkSize : ℕ
  stBinsChunkSize : ℕ
deriving DecidableEq, Repr

/-- `RubyBinding::new`, given the variables `RUBY_MMTK_ENTRIES_CHUNK_SIZE` and
`RUBY_MMTK_BINS_CHUNK_SIZE`. -/
def RubyBinding.new (entriesVar binsVar : Option String) : RubyBinding where
  stEntriesChunkSize := envDefault entriesVar 1024
  stBinsChunkSize := envDefault binsVar 4096

end MmtkRuby
