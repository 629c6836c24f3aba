namespace Conformance.Zip

inductive Problem where
  | unreadable
  | noEnd
  | badDirectory
  | badHeader
  | encrypted
  | unsupported
deriving DecidableEq, Repr

end Conformance.Zip
