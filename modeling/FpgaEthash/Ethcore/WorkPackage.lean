import FpgaEthash.Devcore.CommonData

/-!
# Work packages, epoch contexts, solutions

The records of `libethcore/EthashAux.h` that travel between the pool client, the
farm and its miners, and the `ethash` library as far as `Farm::setWork` asks it
for the sizes of an epoch.
-/

namespace FpgaEthash
namespace Ethcore

open Devcore

/-- `WorkPackage`, with the default values of its members. -/
structure WorkPackage where
  job : StdString := []
  boundary : H256 := FixedHash.zero 32
  header : H256 := FixedHash.zero 32
  seed : H256 := FixedHash.zero 32
  epoch : ℤ := -1
  block : ℤ := -1
  startNonce : BitVec 64 := 0
  exSizeBytes : BitVec 16 := 0
  algo : StdString := "ethash".toList
  deriving DecidableEq

/-- `explicit operator bool`: a package with header `h256()` means "pause until
notified a new work package is available". -/
def WorkPackage.isReal (w : WorkPackage) : Bool := w.header != FixedHash.zero 32

/-- `EpochContext`: the sizes of an epoch and its light cache. -/
structure EpochContext where
  epochNumber : ℤ
  lightNumItems : ℤ
  lightSize : ℕ
  lightCache : List (FixedHash 64)
  dagNumItems : ℤ
  dagSize : ℕ
  deriving DecidableEq

/-- What `Farm::setWork` takes from the `ethash` library: the global epoch context
and the sizes that go with its item counts. -/
structure EthashLibrary where
  lightCacheNumItems : ℤ → ℤ
  fullDatasetNumItems : ℤ → ℤ
  lightCache : ℤ → List (FixedHash 64)
  getLightCacheSize : ℤ → ℕ
  getFullDatasetSize : ℤ → ℕ
  deriving Inhabited

/-- The context that `Farm::setWork` assembles for an epoch. -/
def EthashLibrary.epochContext (lib : EthashLibrary) (epoch : ℤ) : EpochContext where
  epochNumber := epoch
  lightNumItems := lib.lightCacheNumItems epoch
  lightSize := lib.getLightCacheSize (lib.lightCacheNumItems epoch)
  lightCache := lib.lightCache epoch
  dagNumItems := lib.fullDatasetNumItems epoch
  dagSize := lib.getFullDatasetSize (lib.fullDatasetNumItems epoch)

@[simp] theorem EthashLibrary.epochContext_epochNumber (lib : EthashLibrary) (epoch : ℤ) :
    (lib.epochContext epoch).epochNumber = epoch := rfl

/-- `Solution`, without its time stamp. -/
structure Solution where
  nonce : BitVec 64
  mixHash : H256
  work : WorkPackage
  midx : ℕ
  deriving DecidableEq

end Ethcore
end FpgaEthash
