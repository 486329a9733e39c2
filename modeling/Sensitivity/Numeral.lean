/-! How powers of natural numbers and the numerals zero and one are read. They keep the instances
that they have here, whichever other ones come into scope. -/

attribute [instance (high)] instPowNat One.ofOfNat1 Zero.ofOfNat0
