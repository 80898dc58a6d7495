import DataSchema.Description.Data
import DataSchema.Hash.Sha256
import DataSchema.Json.Canonical

/-!
Fingerprints of descriptors: the digest of the canonical text of a description.
-/

namespace DataSchema.Description

def canonical? (d : Description) : Except Error String := do
  Json.canonical? (← d.written? true).toValue

def fingerprint? (d : Description) : Except Error String := d.canonical?.map Sha256.hexDigest

end DataSchema.Description
